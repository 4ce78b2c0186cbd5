import XubinhServer.TcpConnectSocketfd.EchoServer
import XubinhServer.TcpConnectSocketfd.Sending

/-! The echo server as its client sees it: however the input is cut into reads and however much the
kernel takes at once, what comes back are the lines that have been received, in order. -/
namespace XubinhServer

open Halting EventPoller Transition

/-- The lines of a stream are those of its first part, and those of what this has left over with
the rest behind it. -/
theorem lines_append (u v : List UInt8) :
    lines (u ++ v) = lines u ++ lines (partialLine u ++ v) ∧
      partialLine (u ++ v) = partialLine (partialLine u ++ v) := by
  induction u with
  | nil => exact ⟨rfl, rfl⟩
  | cons b u ih =>
    obtain ⟨hlines, htail⟩ := ih
    by_cases hb : b = 10
    · have hleft : partialLine (b :: u) = partialLine u := if_neg fun hboth => hboth.1 hb
      constructor
      · rw [hleft, List.cons_append, lines, lines, if_pos hb, if_pos hb, hlines,
          List.cons_append]
      · rw [hleft, ← htail]
        exact if_neg fun hboth => hboth.1 hb
    · cases hu : lines u with
      | nil =>
        -- no line ends in `b :: u`, which is then all of the partial line
        have hwhole : partialLine u = u := by
          cases hindex : MutableSizeTcpBuffer.newlineIndex u with
          | none => exact (MutableSizeTcpBuffer.lines_of_none hindex).2
          | some n =>
            have hcons := (MutableSizeTcpBuffer.lines_of_newlineIndex hindex).2.1
            rw [hu] at hcons
            cases hcons
        have hleft : partialLine (b :: u) = b :: u := by
          rw [partialLine, if_pos ⟨hb, hu⟩, hwhole]
        have hnone : lines (b :: u) = [] := by
          rw [lines, if_neg hb, hu]
        rw [hleft, hnone]
        exact ⟨rfl, rfl⟩
      | cons line more =>
        have hleft : partialLine (b :: u) = partialLine u := by
          rw [partialLine, if_neg]
          rw [hu]
          exact fun hboth => by cases hboth.2
        have hall : lines (u ++ v) = line :: (more ++ lines (partialLine u ++ v)) := by
          rw [hlines, hu, List.cons_append]
        constructor
        · rw [hleft, List.cons_append, lines, lines, if_neg hb, if_neg hb, hall, hu,
            List.cons_append]
        · rw [hleft, ← htail]
          refine if_neg fun hboth => ?_
          have hnil : lines (u ++ v) = [] := hboth.2
          rw [hall] at hnil
          cases hnil

namespace EchoServer

open TcpConnectSocketfd

variable {κ : Type} {s t : State κ Observation} {script : Nat → List Call} {depth : Nat}
  {u : List UInt8}

/-- Nothing is sent on a detached connection. -/
theorem messageLoop_over {fuel : Nat} {sent : List UInt8} (hs : Over sent s)
    (hd : s.conn.pollable.isDetached = true) :
    wp (messageLoop (runWriteComplete script depth) fuel)
      (fun _ t => Over sent t ∧ t.conn.pollable.isDetached = true) Anything s := by
  induction fuel generalizing s with
  | zero => exact ⟨hs, hd⟩
  | succ fuel ih =>
    simp only [messageLoop, wp_bind, wp_get, wp_liftPure]
    cases s.conn.inputBuffer.getNextNewlinePosition with
    | error e => trivial
    | ok position =>
      cases position with
      | none => exact ⟨⟨hs.closed, hs.taken, hs.callback⟩, hd⟩
      | some newlinePosition =>
        simp only [ends_ok, wp_bind]
        refine wp_mono (send_over hs (.inl hd)) (fun _ t ht => ?_) fun _ _ => id
        obtain ⟨⟨hover, _⟩, haside⟩ := ht
        exact ih ⟨hover.closed, hover.taken, hover.callback⟩ (haside.detached hd)

/-- The loop stands before `u` and has sent `sent`. -/
structure Walking (sent u : List UInt8) (s : State κ Observation) : Prop where
  sends : Sending sent s
  input : s.conn.inputBuffer.Valid
  unread : s.conn.inputBuffer.unread = u

/-- The loop sends the lines that are before it, and leaves the partial line. -/
theorem messageLoop_walking {fuel : Nat} {sent : List UInt8} (hs : Walking sent u s)
    (hfuel : u.length < fuel) :
    wp (messageLoop (runWriteComplete script depth) fuel)
      (fun _ t => Over (sent ++ (lines u).flatten) t ∧ t.conn.pollable.isDetached = true ∨
        Walking (sent ++ (lines u).flatten) (partialLine u) t) Anything s := by
  induction fuel generalizing sent u s with
  | zero => exact absurd hfuel (Nat.not_lt_zero _)
  | succ fuel ih =>
    have hposition := MutableSizeTcpBuffer.getNextNewlinePosition_spec hs.input
    rw [hs.unread] at hposition
    simp only [messageLoop, wp_bind, wp_get, wp_liftPure, hposition]
    cases hindex : MutableSizeTcpBuffer.newlineIndex u with
    | none =>
      obtain ⟨hlines, htail⟩ := MutableSizeTcpBuffer.lines_of_none hindex
      rw [hlines, htail, List.flatten_nil, List.append_nil]
      exact .inr ⟨hs.sends.of_same rfl rfl rfl rfl rfl rfl rfl, hs.input, hs.unread⟩
    | some n =>
      obtain ⟨hn, hlines, htail⟩ := MutableSizeTcpBuffer.lines_of_newlineIndex hindex
      have hlength : s.conn.inputBuffer.readOffset + n + 1 - s.conn.inputBuffer.readOffset =
          n + 1 := by omega
      simp only [Option.map_some, ends_ok, wp_bind, hlength, hs.unread]
      rw [hlines, htail, List.flatten_cons, ← List.append_assoc]
      refine wp_mono (send_rule hs.sends) (fun _ t ht => ?_) fun _ _ => id
      simp only [wp_bind, observe, wp_get, wp_modify]
      obtain ⟨ht, haside⟩ := ht
      cases ht with
      | inl hover =>
        obtain ⟨hover, hd⟩ := hover
        have hbound := hover.mono (List.prefix_append _ (lines (u.drop (n + 1))).flatten)
        exact wp_mono (messageLoop_over ⟨hbound.closed, hbound.taken, hbound.callback⟩ hd)
          (fun _ _ => .inl) fun _ _ => id
      | inr hsending =>
        have hinput := (haside.input hsending.attached).1
        obtain ⟨hvalid, hunread⟩ :=
          MutableSizeTcpBuffer.forwardReadPosition_spec (hinput ▸ hs.input) (n + 1)
        have hnext : Walking (sent ++ u.take (n + 1)) (u.drop (n + 1)) { t with
            conn.inputBuffer := t.conn.inputBuffer.forwardReadPosition (n + 1)
            history.reports := t.history.reports ++ [.sent t.conn.inputBuffer] } :=
          ⟨hsending.of_same rfl rfl rfl rfl rfl rfl rfl, hvalid, by rw [hunread, hinput, hs.unread]⟩
        have hshorter : (u.drop (n + 1)).length < fuel := by
          rw [List.length_drop]
          omega
        exact ih hnext hshorter

/-- What is known of a connection that has received `input`: its lines have been sent, or are sent
no more; and while it reads, the partial line is before it. -/
structure Echoes (input : List UInt8) (s : State κ Observation) : Prop where
  sends : Over (lines input).flatten s ∧ s.conn.pollable.isReading = false ∨
    Sending (lines input).flatten s
  reads : s.conn.pollable.isReading = true →
    s.conn.inputBuffer.Valid ∧ s.conn.inputBuffer.unread = partialLine input

theorem echoes_of_over {input : List UInt8} (h : Over (lines input).flatten s)
    (hreading : s.conn.pollable.isReading = false) : Echoes input s where
  sends := .inl ⟨h, hreading⟩
  reads hread := by
    rw [hreading] at hread
    cases hread

theorem echoes_of_detached {input : List UInt8} (h : Over (lines input).flatten s)
    (hd : s.conn.pollable.isDetached = true) : Echoes input s :=
  echoes_of_over h (PollableFileDescriptor.isReading_of_detached _ hd)

theorem Echoes.over_or_sending {input : List UInt8} (h : Echoes input s) :
    Over (lines input).flatten s ∨ Sending (lines input).flatten s :=
  h.sends.imp_left And.left

/-- What a read event leaves before it looks at the end of the stream. -/
theorem receiveAndProcess_echoes {input : List UInt8} {recvs : List RecvResult}
    (hs : Echoes input s)
    (hopen : s.conn.pollable.isDetached = true ∨ s.conn.pollable.isReading = true) :
    wp (receiveAndProcess recvs (messageCallback (runWriteComplete script depth)))
      (fun _ => Echoes (input ++ received recvs)) Anything s := by
  obtain ⟨hlines, htail⟩ := lines_append input (received recvs)
  have hmore : (lines input).flatten <+: (lines (input ++ received recvs)).flatten := by
    rw [hlines, List.flatten_append]
    exact List.prefix_append _ _
  cases hopen with
  | inl hd =>
    have hover : Over (lines input).flatten s := by
      refine hs.over_or_sending.resolve_right fun hsending => ?_
      rw [hsending.attached] at hd
      cases hd
    let Gone : State κ Observation → Prop := fun t =>
      Over (lines input).flatten t ∧ t.conn.pollable.isDetached = true
    have hreceive : wp (receiveLoop recvs 0) (fun _ => Gone) Anything s :=
      receiveLoop_keeps (fun t b ht => ⟨⟨ht.1.closed, ht.1.taken, ht.1.callback⟩, ht.2⟩)
        (fun t ht => ⟨⟨.inl (by simpa using ht.2), ht.1.taken, ht.1.callback⟩, by simpa using ht.2⟩)
        (fun _ _ => trivial) recvs 0 s ⟨hover, hd⟩
    refine wp_seq hreceive fun total t ht => ?_
    simp only [wp_ite, wp_pure]
    split
    · rw [messageCallback, wp_bind, wp_get]
      refine wp_mono (messageLoop_over ht.1 ht.2) (fun _ v hv => ?_) fun _ _ => id
      exact echoes_of_detached (hv.1.mono hmore) hv.2
    · exact echoes_of_detached (ht.1.mono hmore) ht.2
  | inr hreading =>
    have hsending : Sending (lines input).flatten s := by
      refine hs.sends.resolve_left fun hover => ?_
      rw [hover.2] at hreading
      cases hreading
    obtain ⟨hinput, hunread⟩ := hs.reads hreading
    rw [receiveAndProcess, receiveAllData, wp_bind]
    refine wp_mono (receiveLoop_received hinput) ?_ fun _ _ _ => trivial
    intro total _ ht
    obtain ⟨htotal, b, hb, hbytes, rfl⟩ := ht
    rw [hunread] at hbytes
    rw [Nat.zero_add] at htotal
    have hafter : Sending (lines input).flatten
        { s with conn.inputBuffer := b, conn.pollable := pollableAfter recvs s } :=
      hsending.receive recvs b _
    simp only [wp_ite, wp_pure]
    split
    · have hfuel : (partialLine input ++ received recvs).length < b.getReadableSize + 1 := by
        rw [← hbytes, hb.length_unread]
        exact Nat.lt_succ_self _
      rw [messageCallback, wp_bind, wp_get]
      refine wp_mono (messageLoop_walking ⟨hafter, hb, hbytes⟩ hfuel) (fun _ t ht => ?_)
        fun _ _ => id
      rw [← List.flatten_append, ← hlines, ← htail] at ht
      cases ht with
      | inl hover => exact echoes_of_detached hover.1 hover.2
      | inr hwalking => exact ⟨.inr hwalking.sends, fun _ => ⟨hwalking.input, hwalking.unread⟩⟩
    · rename_i hnone
      have hnil : received recvs = [] := by
        rw [← List.length_eq_zero_iff]
        omega
      rw [hnil, List.append_nil] at hbytes ⊢
      exact ⟨.inr hafter, fun _ => ⟨hb, hbytes⟩⟩

theorem readEvent_echoes {input : List UInt8} {recvs : List RecvResult} (hs : Echoes input s)
    (hopen : s.conn.pollable.isDetached = true ∨ s.conn.pollable.isReading = true) :
    wp (readEventCallback (runWriteComplete script depth) recvs
      (messageCallback (runWriteComplete script depth)))
      (fun _ => Echoes (input ++ received recvs)) Anything s := by
  refine wp_mono (readEvent_rule (receiveAndProcess_echoes hs hopen)
    fun t ht => ht.over_or_sending) (fun _ u hu => ?_) fun _ _ => id
  obtain ⟨t, ht, hsame | hended⟩ := hu
  · rwa [hsame]
  · obtain ⟨hreading, hover | hsending, _⟩ := hended
    · exact echoes_of_over hover hreading
    · refine ⟨.inr hsending, fun hread => ?_⟩
      rw [hreading] at hread
      cases hread

theorem writeEvent_echoes {input : List UInt8} (hs : Echoes input s) :
    wp (writeEventCallback (runWriteComplete script depth)) (fun _ => Echoes input) Anything
      s := by
  cases hs.sends with
  | inl hover =>
    refine wp_mono (writeEvent_over hover.1.closed) (fun _ t ht => ?_) fun _ _ => id
    rwa [ht]
  | inr hsending =>
    refine wp_mono (writeEvent_rule hsending) (fun _ t ht => ?_) fun _ _ => id
    obtain ⟨hsends, haside⟩ := ht
    refine ⟨hsends, fun hreading => ?_⟩
    obtain ⟨hinput, hreads⟩ := haside.input (t.conn.pollable.reading_attached hreading)
    rw [hinput]
    exact hs.reads (hreads ▸ hreading)

theorem dispatch_echoes {input : List UInt8} {activeEvents : UInt32} {recvs : List RecvResult}
    (hs : Echoes input s)
    (hpolled : has activeEvents eventTypeRead = true → s.conn.pollable.isReading = true) :
    wp (dispatchActiveEvents (runWriteComplete script depth) activeEvents recvs
      (messageCallback (runWriteComplete script depth)))
      (fun _ => Echoes (input ++ if has activeEvents eventTypeRead then received recvs else []))
      Anything s := by
  let Polled : State κ Observation → Prop := fun t => Echoes input t ∧
    (has activeEvents eventTypeRead = true →
      t.conn.pollable.isDetached = true ∨ t.conn.pollable.isReading = true)
  have hstart : Polled s := ⟨hs, fun hread => .inr (hpolled hread)⟩
  have hclose : wp closeEventCallback (fun _ => Polled) Anything s := by
    have hdetached : s.conn.pollable.detachFromPoller.isDetached = true :=
      PollableFileDescriptor.detachFromPoller_isDetached _
    have htaken : s.history.accepted <+: (lines input).flatten :=
      hs.over_or_sending.elim Over.taken Sending.taken
    have hcallback : s.conn.writeCompleteCallback = none :=
      hs.over_or_sending.elim Over.callback Sending.callback
    exact ⟨echoes_of_detached ⟨.inl hdetached, htaken, hcallback⟩ hdetached,
      fun _ => .inl hdetached⟩
  refine wp_seq (I := Polled) (Kept.dispatchEvent hstart fun _ => hclose) fun _ t ht => ?_
  refine wp_seq (I := Polled)
    (Kept.dispatchEvent ht fun _ => show wp errorEventCallback _ _ _ from ht) fun _ t ht => ?_
  refine wp_seq (I := Echoes (input ++
    if has activeEvents eventTypeRead then received recvs else [])) ?_ fun _ t ht => ?_
  · cases hread : has activeEvents eventTypeRead with
    | true =>
      simp only [dispatchEvent, hread, if_true]
      exact readEvent_echoes ht.1 (ht.2 hread)
    | false =>
      simp only [dispatchEvent, hread, Bool.false_eq_true, if_false, List.append_nil]
      exact ht.1
  · exact Kept.dispatchEvent ht fun _ => writeEvent_echoes ht

/-- One turn of the loop that owns the connection, and the input that it brings. `epoll` reports
reading only while it is listened on. -/
inductive Turn (script : Nat → List Call) (depth : Nat) :
    State κ Observation × List UInt8 → State κ Observation × List UInt8 → Prop
  | dispatch {s t input} (kernel : Kernel) (activeEvents : UInt32) (recvs : List RecvResult)
      (hpolled : has activeEvents eventTypeRead = true → s.conn.pollable.isReading = true)
      (h : dispatchActiveEvents (runWriteComplete script depth) activeEvents recvs
        (messageCallback (runWriteComplete script depth))
        { s with kernel := kernel, history.reports := [] } = .ok () t) :
      Turn script depth (s, input)
        (t, input ++ if has activeEvents eventTypeRead then received recvs else [])
  | abort {s t input} (kernel : Kernel)
      (h : abortFromEventLoop { s with kernel := kernel, history.reports := [] } = .ok () t) :
      Turn script depth (s, input) (t, input)

variable {input : List UInt8} {timeStamp : Int} {context : Option κ}

theorem started_echoes :
    Echoes [] (started timeStamp context none : State κ Observation) where
  sends := .inr ⟨rfl, rfl, ⟨MutableSizeTcpBuffer.valid_new, rfl, fun _ => rfl⟩, rfl, rfl⟩
  reads _ := ⟨MutableSizeTcpBuffer.valid_new, rfl⟩

theorem Echoes.ready {input : List UInt8} (h : Echoes input s) (kernel : Kernel) :
    Echoes input { s with kernel := kernel, history.reports := [] } where
  sends := h.sends.imp (fun hover => ⟨⟨hover.1.closed, hover.1.taken, hover.1.callback⟩, hover.2⟩)
    fun hsending => hsending.of_same rfl rfl rfl rfl rfl rfl rfl
  reads := h.reads

theorem Turn.echoes {a b : State κ Observation × List UInt8} (hturn : Turn script depth a b)
    (ha : Echoes a.2 a.1) : Echoes b.2 b.1 := by
  cases hturn with
  | @dispatch s t input kernel activeEvents recvs hpolled h =>
    have hs : Echoes input { s with kernel := kernel, history.reports := [] } := ha.ready kernel
    have ht := wp_of_ok (dispatch_echoes hs hpolled) h
    exact ht
  | @abort s t input kernel h =>
    have hs := (ha.ready kernel).over_or_sending
    have habort := abort_over (hs.elim Over.taken Sending.taken)
      (hs.elim Over.callback Sending.callback)
    obtain ⟨hover, _⟩ := wp_of_ok habort h
    exact echoes_of_detached hover.1 hover.2

end EchoServer

end XubinhServer

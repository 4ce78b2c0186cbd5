import XubinhServer.TcpConnectSocketfd.EchoLoop
import XubinhServer.TcpConnectSocketfd.Live

/-! The sending side of a connection without a write-complete callback: what the kernel has been
given while it is open, and what it has been given when it is closed in the middle of its work. -/
namespace XubinhServer.TcpConnectSocketfd

open Halting

variable {κ ρ : Type} {s t : State κ ρ} {sent data : List UInt8} {script : Nat → List Call}
  {depth : Nat}

/-- The connection is open, and `sent` is what has been passed to `send`. -/
structure Sending (sent : List UInt8) (s : State κ ρ) : Prop where
  attached : s.conn.pollable.isDetached = false
  opened : s.conn.isWriteEndShutdown = false
  order : InOrder s
  calls : submitted s.history.calls = sent
  callback : s.conn.writeCompleteCallback = none

/-- The connection is closed, and the kernel has taken a first part of `sent`. -/
structure Over (sent : List UInt8) (s : State κ ρ) : Prop where
  closed : Closed s
  taken : s.history.accepted <+: sent
  callback : s.conn.writeCompleteCallback = none

/-- Nothing has been reported from `s` to `t`, nor received. -/
structure Aside (s t : State κ ρ) : Prop where
  reports : t.history.reports = s.history.reports
  detached : s.conn.pollable.isDetached = true → t.conn.pollable.isDetached = true
  input : t.conn.pollable.isDetached = false → t.conn.inputBuffer = s.conn.inputBuffer ∧
    t.conn.pollable.isReading = s.conn.pollable.isReading

theorem Aside.of_detached (h : t.conn.pollable.isDetached = true)
    (hreports : t.history.reports = s.history.reports) : Aside s t where
  reports := hreports
  detached _ := h
  input hd := by
    rw [h] at hd
    cases hd

theorem Aside.refl (s : State κ ρ) : Aside s s := ⟨rfl, id, fun _ => ⟨rfl, rfl⟩⟩

theorem Aside.trans {u : State κ ρ} (hs : Aside s t) (ht : Aside t u) : Aside s u where
  reports := ht.reports.trans hs.reports
  detached hd := ht.detached (hs.detached hd)
  input hd := by
    have hattached : t.conn.pollable.isDetached = false := by
      by_contra hdetached
      rw [ht.detached (by simpa using hdetached)] at hd
      cases hd
    obtain ⟨hinput, hreading⟩ := hs.input hattached
    obtain ⟨hinput', hreading'⟩ := ht.input hd
    exact ⟨hinput'.trans hinput, hreading'.trans hreading⟩

/-- What is not read before is not read behind. -/
theorem Aside.isReading (h : Aside s t) (hreading : s.conn.pollable.isReading = false) :
    t.conn.pollable.isReading = false := by
  cases hd : t.conn.pollable.isDetached with
  | true => exact PollableFileDescriptor.isReading_of_detached _ hd
  | false => exact (h.input hd).2.trans hreading

/-- The sending side does not look at the input. -/
theorem Sending.of_same (h : Sending sent s)
    (hd : t.conn.pollable.isDetached = s.conn.pollable.isDetached)
    (hw : t.conn.pollable.isWriting = s.conn.pollable.isWriting)
    (hb : t.conn.outputBuffer = s.conn.outputBuffer)
    (ho : t.conn.isWriteEndShutdown = s.conn.isWriteEndShutdown)
    (hcallback : t.conn.writeCompleteCallback = s.conn.writeCompleteCallback)
    (hc : t.history.calls = s.history.calls) (ha : t.history.accepted = s.history.accepted) :
    Sending sent t where
  attached := hd.trans h.attached
  opened := ho.trans h.opened
  order := by
    refine ⟨hb ▸ h.order.valid, ?_, ?_⟩
    · rw [ha, hb, hc]
      exact h.order.stream
    · rw [hw, hb]
      exact h.order.idle
  calls := by rw [hc, h.calls]
  callback := hcallback.trans h.callback

theorem Over.of_same (h : Over sent s)
    (hd : t.conn.pollable.isDetached = s.conn.pollable.isDetached)
    (ho : t.conn.isWriteEndShutdown = s.conn.isWriteEndShutdown)
    (hcallback : t.conn.writeCompleteCallback = s.conn.writeCompleteCallback)
    (ha : t.history.accepted = s.history.accepted) : Over sent t where
  closed := by
    rw [Closed, hd, ho]
    exact h.closed
  taken := ha ▸ h.taken
  callback := hcallback.trans h.callback

theorem Over.mono {more : List UInt8} (h : Over sent s) (hmore : sent <+: more) : Over more s :=
  ⟨h.closed, h.taken.trans hmore, h.callback⟩

theorem Sending.taken (h : Sending sent s) : s.history.accepted <+: sent := by
  rw [← h.calls, ← h.order.stream]
  exact List.prefix_append _ _

theorem Sending.not_closed (h : Sending sent s) : ¬Closed s := by
  rw [Closed, h.attached, h.opened]
  simp

/-- An open connection that does not wait to send has sent everything. -/
theorem accepted_of_idle (hsends : Over sent s ∨ Sending sent s)
    (hd : s.conn.pollable.isDetached = false) (ho : s.conn.isWriteEndShutdown = false)
    (hidle : s.conn.pollable.isWriting = false) : s.history.accepted = sent := by
  cases hsends with
  | inl hover =>
    have hclosed := hover.closed
    rw [Closed, hd, ho] at hclosed
    simp at hclosed
  | inr hsending =>
    have hstream := hsending.order.stream
    rwa [hsending.order.idle hidle, List.append_nil, hsending.calls] at hstream

theorem pollableAfter_isDetached (recvs : List RecvResult) (s : State κ ρ) :
    (pollableAfter recvs s).isDetached = s.conn.pollable.isDetached := by
  rw [pollableAfter]
  split
  · exact PollableFileDescriptor.disableReadEvent_isDetached _
  · rfl

/-- Receiving does not touch the sending side. -/
theorem Sending.receive (h : Sending sent s) (recvs : List RecvResult) (b : MutableSizeTcpBuffer)
    (reports : List ρ) : Sending sent { s with
      conn.inputBuffer := b
      conn.pollable := pollableAfter recvs s
      history.reports := reports } := by
  refine h.of_same (pollableAfter_isDetached recvs s) ?_ rfl rfl rfl rfl rfl
  dsimp only [pollableAfter]
  split
  · exact PollableFileDescriptor.disableReadEvent_isWriting _
  · rfl

theorem Over.receive (h : Over sent s) (recvs : List RecvResult) (b : MutableSizeTcpBuffer)
    (reports : List ρ) : Over sent { s with
      conn.inputBuffer := b
      conn.pollable := pollableAfter recvs s
      history.reports := reports } :=
  h.of_same (pollableAfter_isDetached recvs s) rfl rfl rfl

/-- Whatever has been sent, an abort closes the connection. -/
theorem abort_over (htaken : s.history.accepted <+: sent)
    (hcallback : s.conn.writeCompleteCallback = none) :
    wp abortFromEventLoop (fun _ t => (Over sent t ∧ t.conn.pollable.isDetached = true) ∧
      t.history.reports = s.history.reports) Anything s := by
  have hdetached : s.aborted.conn.pollable.isDetached = true :=
    PollableFileDescriptor.detachFromPoller_isDetached _
  exact abortFromEventLoop_rule (fun _ _ => ⟨⟨⟨.inl hdetached, htaken, hcallback⟩, hdetached⟩, rfl⟩)
    (fun _ _ _ => trivial) fun _ _ _ _ _ _ => trivial

/-- Either all of the data is on its way, or the peer is gone. -/
theorem send_rule (hs : Sending sent s) :
    wp (send (runWriteComplete script depth) data)
      (fun _ t => (Over (sent ++ data) t ∧ t.conn.pollable.isDetached = true ∨
        Sending (sent ++ data) t) ∧ Aside s t) Anything s := by
  have hcalls : submitted (s.history.calls ++ [.send data]) = sent ++ data := by
    rw [submitted_append, hs.calls]
  simp only [send, record, wp_bind, wp_modify, wp_get, wp_ite, wp_pure]
  rw [if_neg (by rw [hs.attached]; exact Bool.false_ne_true)]
  split
  · rename_i hwriting
    refine wp_appendOutput (fun b hb => ⟨.inr ?_, rfl, id, fun _ => ⟨rfl, rfl⟩⟩) trivial
    obtain ⟨hvalid, hstream⟩ := hs.order.queued (n := 0) (.inl rfl) hb
    rw [List.take_zero, List.append_nil] at hstream
    refine ⟨hs.attached, hs.opened, ⟨hvalid, hstream, fun hidle => ?_⟩, hcalls, hs.callback⟩
    exact absurd (hwriting.symm.trans hidle) (by decide)
  · rename_i hwriting
    have hempty : s.conn.outputBuffer.unread = [] :=
      hs.order.idle (by simpa using hwriting)
    have hsent : s.history.accepted = sent := by
      have hstream := hs.order.stream
      rwa [hempty, List.append_nil, hs.calls] at hstream
    apply sendAsManyData_rule
    · intro ks n _
      simp only [wp_ite, wp_bind, enableWriteEvent]
      split
      · rename_i hall
        rw [wp_runWriteComplete_none]
        · refine ⟨.inr ⟨hs.attached, hs.opened, ⟨hs.order.valid, ?_, fun _ => hempty⟩, hcalls,
            hs.callback⟩, rfl, id, fun _ => ⟨rfl, rfl⟩⟩
          simp only [State.took]
          rw [hcalls, hsent, hempty, hall, List.take_length, List.append_nil]
        · exact hs.callback
      · refine wp_appendOutput (fun b hb => ⟨.inr ?_, rfl, fun hd => ?_, fun _ => ⟨rfl, ?_⟩⟩)
          trivial
        · obtain ⟨hvalid, hstream⟩ := hs.order.queued (.inr hempty) hb
          refine ⟨PollableFileDescriptor.enableWriteEvent_isDetached _, hs.opened,
            ⟨hvalid, hstream, fun hidle => ?_⟩, hcalls, hs.callback⟩
          simp at hidle
        · rw [hs.attached] at hd
          cases hd
        · exact PollableFileDescriptor.enableWriteEvent_isReading _
    · intro ks n
      have htaken : s.history.accepted ++ data.take n <+: sent ++ data := by
        rw [hsent]
        exact (List.prefix_append_right_inj sent).mpr (List.take_prefix n data)
      refine wp_mono (abort_over htaken hs.callback) (fun _ t ht => ?_) fun _ _ => id
      simp only [if_true]
      rw [wp_runWriteComplete_none]
      · exact ⟨.inl ht.1, Aside.of_detached ht.1.2 ht.2⟩
      · exact ht.1.1.callback

/-- A socket that is shut takes nothing more. -/
theorem send_over (hs : Over sent s) (hkernel : s.conn.pollable.isDetached = true ∨
      s.kernel.sends.head? = some (.error .EPIPE)) :
    wp (send (runWriteComplete script depth) data)
      (fun _ t => (Over sent t ∧ (t.conn.pollable.isDetached = true ∨
        t.kernel.sends.head? = some (.error .EPIPE))) ∧ Aside s t) Anything s := by
  simp only [send, record, wp_bind, wp_modify, wp_get, wp_ite, wp_pure]
  split
  · rename_i hd
    exact ⟨⟨⟨.inl hd, hs.taken, hs.callback⟩, .inl hd⟩, rfl, id, fun _ => ⟨rfl, rfl⟩⟩
  rename_i hd
  have hpipe := hkernel.resolve_left hd
  have hclosed := hs.closed
  split
  · refine wp_appendOutput (fun b hb => ⟨⟨⟨hclosed, hs.taken, hs.callback⟩, .inr hpipe⟩, rfl,
      id, fun _ => ⟨rfl, rfl⟩⟩) trivial
  · by_cases hdata : data.length = 0
    · simp only [sendAsManyData, if_pos hdata, wp_pure, wp_ite]
      rw [if_pos hdata.symm, wp_runWriteComplete_none]
      · exact ⟨⟨⟨hclosed, hs.taken, hs.callback⟩, .inr hpipe⟩, rfl, id, fun _ => ⟨rfl, rfl⟩⟩
      · exact hs.callback
    · obtain ⟨rest, hsends⟩ := List.head?_eq_some_iff.mp hpipe
      simp only [sendAsManyData, if_neg hdata, wp_bind, wp_get, hsends, sendLoop, wp_modify,
        if_pos (Nat.pos_of_ne_zero hdata)]
      refine wp_mono (abort_over hs.taken hs.callback) (fun _ t ht => ?_) fun _ _ => id
      rw [wp_pure, if_pos rfl, wp_runWriteComplete_none]
      · exact ⟨⟨ht.1.1, .inl ht.1.2⟩, Aside.of_detached ht.1.2 ht.2⟩
      · exact ht.1.1.callback

/-- The pieces of an answer are sent one behind the other. -/
theorem runCalls_rule (pieces : List (List UInt8))
    (hs : Over sent s ∧ s.conn.pollable.isDetached = true ∨ Sending sent s) :
    wp (runCalls (runWriteComplete script depth) (pieces.map .send))
      (fun _ t => (Over (sent ++ pieces.flatten) t ∧ t.conn.pollable.isDetached = true ∨
        Sending (sent ++ pieces.flatten) t) ∧ Aside s t) Anything s := by
  induction pieces generalizing s sent with
  | nil =>
    rw [List.flatten_nil, List.append_nil]
    exact ⟨hs, .refl s⟩
  | cons piece pieces ih =>
    have hsend : wp (send (runWriteComplete script depth) piece)
        (fun _ t => (Over (sent ++ piece) t ∧ t.conn.pollable.isDetached = true ∨
          Sending (sent ++ piece) t) ∧ Aside s t) Anything s := by
      cases hs with
      | inl hover =>
        refine wp_mono (send_over hover.1 (.inl hover.2)) (fun _ t ht => ?_) fun _ _ => id
        obtain ⟨⟨hgone, _⟩, haside⟩ := ht
        exact ⟨.inl ⟨hgone.mono (List.prefix_append _ _), haside.detached hover.2⟩, haside⟩
      | inr hsending => exact send_rule hsending
    rw [List.flatten_cons, ← List.append_assoc]
    refine wp_seq (f := fun _ => runCalls (runWriteComplete script depth) (pieces.map .send))
      hsend fun _ t ht => ?_
    exact wp_mono (ih ht.1) (fun _ u hu => ⟨hu.1, ht.2.trans hu.2⟩) fun _ _ => id

/-- Whoever calls `shutdown_write`, it closes the connection. -/
theorem shutdownWrite_rule (htaken : s.history.accepted <+: sent)
    (hcallback : s.conn.writeCompleteCallback = none) :
    wp (shutdownWrite (runWriteComplete script depth)) (fun _ t => Over sent t ∧ Aside s t)
      Anything s := by
  simp only [shutdownWrite, record, nextShutdown, closeEventCallback, detachFromPoller,
    runCloseCallback, disableWriteEvent, wp_bind, wp_modify, wp_modifyGet, wp_get, wp_ite, wp_pure]
  split
  · rename_i hshut
    exact ⟨⟨.inr hshut, htaken, hcallback⟩, rfl, id, fun _ => ⟨rfl, rfl⟩⟩
  split
  · refine wp_mono (abort_over htaken hcallback) (fun _ t ht => ?_) fun _ _ => id
    exact ⟨ht.1.1, Aside.of_detached ht.1.2 ht.2⟩
  split
  · rw [wp_runWriteComplete_none]
    · refine ⟨⟨.inr rfl, htaken, hcallback⟩, Aside.of_detached ?_ rfl⟩
      simp
    · exact hcallback
  · rw [wp_runWriteComplete_none]
    · exact ⟨⟨.inr rfl, htaken, hcallback⟩, rfl, by simp, fun _ => ⟨rfl, by simp⟩⟩
    · exact hcallback

/-- A closed connection does nothing in a write event. -/
theorem writeEvent_over (hs : Closed s) :
    wp (writeEventCallback (runWriteComplete script depth)) (fun _ t => t = s) Anything s := by
  simp only [writeEventCallback, wp_bind, wp_get, wp_ite, wp_pure]
  split
  · trivial
  · rename_i hd
    rw [if_pos (hs.resolve_left hd)]
    trivial

/-- A write event sends what is waiting. If this was all, and no more can be received, it closes
the connection. -/
theorem writeEvent_rule (hs : Sending sent s) :
    wp (writeEventCallback (runWriteComplete script depth))
      (fun _ t => (Over sent t ∧ t.conn.pollable.isReading = false ∨ Sending sent t) ∧ Aside s t)
      Anything s := by
  have hflush : wp flushOutput (fun done t => (Over sent t ∧ t.conn.pollable.isDetached = true ∨
      Sending sent t ∧ (done = true → t.conn.outputBuffer.unread = [])) ∧ Aside s t)
      Anything s := by
    refine flushOutput_rule ?_ ?_ fun hempty => ⟨.inr ⟨hs, fun _ => hempty⟩, .refl s⟩
    · intro ks n _
      obtain ⟨hvalid, hunread⟩ :=
        MutableSizeTcpBuffer.forwardReadPosition_spec hs.order.valid n
      refine ⟨.inr ⟨⟨hs.attached, hs.opened, ⟨hvalid, ?_, fun hidle => ?_⟩, hs.calls, hs.callback⟩,
        fun hdone => ?_⟩, rfl, id, fun _ => ⟨rfl, rfl⟩⟩
      · simp only [State.took]
        rw [hunread, ← hs.order.stream, List.append_assoc, List.take_append_drop]
      · rw [hunread, hs.order.idle hidle, List.drop_nil]
      · rw [hunread, List.drop_eq_nil_iff]
        exact Nat.le_of_eq (of_decide_eq_true hdone).symm
    · intro ks n
      have htaken : s.history.accepted ++ s.conn.outputBuffer.unread.take n <+: sent := by
        rw [← hs.calls, ← hs.order.stream]
        exact (List.prefix_append_right_inj _).mpr (List.take_prefix _ _)
      refine wp_mono (abort_over htaken hs.callback) (fun _ t ht => ?_) fun _ _ => id
      exact ⟨.inl ⟨⟨ht.1.1.closed, ht.1.1.taken, ht.1.1.callback⟩, ht.1.2⟩,
        Aside.of_detached ht.1.2 ht.2⟩
  have hcomplete : wp (flushAndComplete (runWriteComplete script depth))
      (fun done t => (Over sent t ∧ t.conn.pollable.isDetached = true ∨ Sending sent t) ∧
        Aside s t) Anything s := by
    refine flushAndComplete_rule hflush (fun t ht => ?_) fun t ht => ?_
    · obtain ⟨ht, haside⟩ := ht
      have haside' : Aside s
          { t with conn.pollable := t.conn.pollable.disableWriteEvent } := by
        refine ⟨haside.reports, fun hd => ?_, fun hd => ?_⟩
        · simpa using haside.detached hd
        obtain ⟨hinput, hreading⟩ := haside.input (by simpa using hd)
        exact ⟨hinput, by simpa using hreading⟩
      cases ht with
      | inl hover =>
        rw [wp_runWriteComplete_none]
        · refine ⟨.inl ⟨⟨.inl ?_, hover.1.taken, hover.1.callback⟩, ?_⟩, haside'⟩
          · simpa using hover.2
          · simpa using hover.2
        · exact hover.1.callback
      | inr hsending =>
        obtain ⟨hsending, hempty⟩ := hsending
        rw [wp_runWriteComplete_none]
        · refine ⟨.inr ⟨?_, hsending.opened, ⟨hsending.order.valid, hsending.order.stream,
            fun _ => hempty rfl⟩, hsending.calls, hsending.callback⟩, haside'⟩
          simpa using hsending.attached
        · exact hsending.callback
    · exact ⟨ht.1.imp_right fun hsending => hsending.1, ht.2⟩
  have hclosed : ∀ t : State κ ρ, t.conn.pollable.isDetached = true →
      t.conn.pollable.isReading = false :=
    fun t => PollableFileDescriptor.isReading_of_detached _
  simp only [writeEventCallback, wp_bind, wp_get, wp_ite, wp_pure]
  rw [if_neg (by rw [hs.attached]; exact Bool.false_ne_true),
    if_neg (by rw [hs.opened]; exact Bool.false_ne_true)]
  refine wp_mono hcomplete (fun done t ht => ?_) fun _ _ => id
  obtain ⟨ht, haside⟩ := ht
  have hdone : (Over sent t ∧ t.conn.pollable.isReading = false ∨ Sending sent t) ∧ Aside s t :=
    ⟨ht.imp_left fun hover => ⟨hover.1, hclosed t hover.2⟩, haside⟩
  cases done with
  | false => exact hdone
  | true =>
    simp only [if_true, wp_bind, wp_get, wp_ite, wp_pure]
    split
    · rename_i hidle
      have hreading : t.conn.pollable.isReading = false := by
        simp only [Bool.and_eq_true, Bool.not_eq_true'] at hidle
        exact hidle.1
      have hshut : wp (shutdownWrite (runWriteComplete script depth))
          (fun _ u => Over sent u ∧ Aside t u) Anything t := by
        cases ht with
        | inl hover => exact shutdownWrite_rule hover.1.taken hover.1.callback
        | inr hsending => exact shutdownWrite_rule hsending.taken hsending.callback
      refine wp_mono hshut (fun _ u hu => ?_) fun _ _ => id
      exact ⟨.inl ⟨hu.1, hu.2.isReading hreading⟩, haside.trans hu.2⟩
    · exact hdone

/-- At the end of the stream a read event lets go of the input buffer, and closes the connection if
nothing waits to be sent. -/
theorem readEvent_rule {I : State κ ρ → Prop} {recvs : List RecvResult}
    {messageCallback : Comp κ ρ Unit} {sent : State κ ρ → List UInt8}
    (hprocess : wp (receiveAndProcess recvs messageCallback) (fun _ => I) Anything s)
    (hI : ∀ t, I t → Over (sent t) t ∨ Sending (sent t) t) :
    wp (readEventCallback (runWriteComplete script depth) recvs messageCallback)
      (fun _ u => ∃ t, I t ∧ (u = t ∨ u.conn.pollable.isReading = false ∧
        (Over (sent t) u ∨ Sending (sent t) u) ∧ u.history.reports = t.history.reports))
      Anything s := by
  refine wp_seq hprocess fun _ t ht => ?_
  simp only [wp_bind, wp_get, wp_ite, wp_modify, wp_pure]
  split
  · exact ⟨t, ht, .inl rfl⟩
  · rename_i hread
    have hreading := eq_false_of_ne_true hread
    split
    · have hshut : wp (shutdownWrite (runWriteComplete script depth))
          (fun _ u => Over (sent t) u ∧
            Aside { t with conn.inputBuffer := t.conn.inputBuffer.release } u) Anything
          { t with conn.inputBuffer := t.conn.inputBuffer.release } := by
        cases hI t ht with
        | inl hover => exact shutdownWrite_rule hover.taken hover.callback
        | inr hsending => exact shutdownWrite_rule hsending.taken hsending.callback
      refine wp_mono hshut (fun _ u hu => ?_) fun _ _ => id
      exact ⟨t, ht, .inr ⟨hu.2.isReading hreading, .inl hu.1, hu.2.reports⟩⟩
    · refine ⟨t, ht, .inr ⟨hreading, ?_, rfl⟩⟩
      cases hI t ht with
      | inl hover => exact .inl ⟨hover.closed, hover.taken, hover.callback⟩
      | inr hsending => exact .inr (hsending.of_same rfl rfl rfl rfl rfl rfl rfl)

end XubinhServer.TcpConnectSocketfd

import XubinhServer.TcpConnectSocketfd.EchoStream

/-! The echo client: it sends what is typed, and prints the lines that come back. -/
namespace XubinhServer.EchoClient

open Halting EventPoller TcpConnectSocketfd Transition

variable {κ : Type}

/-- The lines on the terminal are what the connection reports. -/
def print (serverMessage : List UInt8) : Comp κ (List UInt8) Unit :=
  modify fun s => { s with history.reports := s.history.reports ++ [serverMessage] }

/-- The loop of `message_callback`, for fewer than `fuel` lines. -/
def messageLoop : (fuel : Nat) → Comp κ (List UInt8) Unit
  | 0 => pure ()
  | fuel + 1 => do
    let inputBuffer := (← get).conn.inputBuffer
    match ← liftPure inputBuffer.getNextNewlinePosition with
    | none => pure ()
    | some newlinePosition =>
      let serverMessageLength := newlinePosition + 1 - inputBuffer.readOffset
      print (inputBuffer.unread.take serverMessageLength)
      modify fun s => { s with
        conn.inputBuffer := s.conn.inputBuffer.forwardReadPosition serverMessageLength }
      messageLoop fuel

/-- Every line takes at least one byte out of the buffer. -/
def messageCallback : Comp κ (List UInt8) Unit := do
  messageLoop ((← get).conn.inputBuffer.getReadableSize + 1)

/-- The loop of `Stdinfd::_read_event_callback` over the answers of `::read`, while the connection
exists. It ends with `EAGAIN` once these are used up. -/
def readStdin (writeComplete : Comp κ (List UInt8) Unit) :
    List RecvResult → Comp κ (List UInt8) Unit
  | [] => pure ()
  | .read data :: rest => do
    if data.length > 0 then
      TcpConnectSocketfd.send writeComplete data
      readStdin writeComplete rest
    else throw (.logFatal "stdin closed")
  | .error .EAGAIN :: _ => pure ()
  | .error _ :: _ => throw (.logFatal "unknown error when reading from stdin")

/-- The connection as `TcpClient` starts it: no callback but the message callback is registered. -/
def connected (timeStamp : Int) (context : Option κ) : State κ (List UInt8) :=
  { started timeStamp context none with
    conn := { (started (ρ := List UInt8) timeStamp context none).conn with
      hasCloseCallback := false } }

/-- The connection, what the server has sent, and what has been typed. -/
structure Client (κ : Type) where
  state : State κ (List UInt8)
  input : List UInt8
  typed : List UInt8

/-- One turn of the loop of the client. A socket whose write end is shut answers `EPIPE`. -/
inductive Turn (script : Nat → List Call) (depth : Nat) : Client κ → Client κ → Prop
  | dispatch {s t input typed} (kernel : Kernel) (activeEvents : UInt32) (recvs : List RecvResult)
      (hpolled : has activeEvents eventTypeRead = true → s.conn.pollable.isReading = true)
      (h : dispatchActiveEvents (runWriteComplete script depth) activeEvents recvs messageCallback
        { s with kernel := kernel } = .ok () t) :
      Turn script depth ⟨s, input, typed⟩
        ⟨t, input ++ if has activeEvents eventTypeRead then received recvs else [], typed⟩
  | stdin {s t input typed} (kernel : Kernel) (reads : List RecvResult)
      (hkernel : s.conn.isWriteEndShutdown = true →
        kernel.sends.head? = some (.error .EPIPE))
      (h : readStdin (runWriteComplete script depth) reads { s with kernel := kernel } = .ok () t) :
      Turn script depth ⟨s, input, typed⟩ ⟨t, input, typed ++ received reads⟩
  | stop {s t input typed} (kernel : Kernel)
      (h : shutdownWrite (runWriteComplete script depth) { s with kernel := kernel } = .ok () t) :
      Turn script depth ⟨s, input, typed⟩ ⟨t, input, typed⟩

variable {s t : State κ (List UInt8)} {script : Nat → List Call} {depth : Nat}
  {input typed u : List UInt8} {recvs : List RecvResult}

/-- The loop prints the lines that are before it, and leaves the partial line. -/
theorem messageLoop_prints {fuel : Nat} (hinput : s.conn.inputBuffer.Valid)
    (hunread : s.conn.inputBuffer.unread = u) (hfuel : u.length < fuel) :
    wp (messageLoop fuel) (fun _ t => ∃ b : MutableSizeTcpBuffer, b.Valid ∧
      b.unread = partialLine u ∧ t = { s with
        conn.inputBuffer := b, history.reports := s.history.reports ++ lines u })
      (fun _ _ => False) s := by
  induction fuel generalizing u s with
  | zero => exact absurd hfuel (Nat.not_lt_zero _)
  | succ fuel ih =>
    have hposition := MutableSizeTcpBuffer.getNextNewlinePosition_spec hinput
    rw [hunread] at hposition
    simp only [messageLoop, wp_bind, wp_get, wp_liftPure, hposition]
    cases hindex : MutableSizeTcpBuffer.newlineIndex u with
    | none =>
      obtain ⟨hlines, htail⟩ := MutableSizeTcpBuffer.lines_of_none hindex
      rw [hlines, htail, List.append_nil]
      exact ⟨_, hinput, hunread, rfl⟩
    | some n =>
      obtain ⟨hn, hlines, htail⟩ := MutableSizeTcpBuffer.lines_of_newlineIndex hindex
      have hlength : s.conn.inputBuffer.readOffset + n + 1 - s.conn.inputBuffer.readOffset =
          n + 1 := by omega
      obtain ⟨hvalid, hdrop⟩ := MutableSizeTcpBuffer.forwardReadPosition_spec hinput (n + 1)
      have hshorter : (u.drop (n + 1)).length < fuel := by
        rw [List.length_drop]
        omega
      simp only [Option.map_some, ends_ok, wp_bind, hlength, hunread, print, wp_modify]
      refine wp_mono (ih hvalid (by rw [hdrop, hunread]) hshorter) (fun _ t ht => ?_) fun _ _ => id
      obtain ⟨b, hb, hleft, rfl⟩ := ht
      refine ⟨b, hb, by rw [hleft, htail], ?_⟩
      rw [hlines, List.append_assoc]
      rfl

/-- What is known of the client: what is typed has been sent, or is sent no more; the lines that
have come back are on the terminal; and while it reads, the partial line is before it. -/
structure Prints (input typed : List UInt8) (s : State κ (List UInt8)) : Prop where
  sends : Over typed s ∨ Sending typed s
  printed : s.history.reports = lines input
  reads : s.conn.pollable.isReading = true →
    s.conn.inputBuffer.Valid ∧ s.conn.inputBuffer.unread = partialLine input

theorem receiveAndProcess_prints (hsends : Over typed s ∨ Sending typed s)
    (hprinted : s.history.reports = lines input) (hinput : s.conn.inputBuffer.Valid)
    (hunread : s.conn.inputBuffer.unread = partialLine input) :
    wp (receiveAndProcess recvs messageCallback) (fun _ => Prints (input ++ received recvs) typed)
      Anything s := by
  obtain ⟨hlines, htail⟩ := lines_append input (received recvs)
  rw [receiveAndProcess, receiveAllData, wp_bind]
  refine wp_mono (receiveLoop_received hinput) ?_ fun _ _ _ => trivial
  intro total _ ht
  obtain ⟨htotal, b, hb, hbytes, rfl⟩ := ht
  rw [hunread] at hbytes
  rw [Nat.zero_add] at htotal
  have hafter : ∀ c reports, Over typed { s with
      conn.inputBuffer := c, conn.pollable := pollableAfter recvs s, history.reports := reports } ∨
      Sending typed { s with
        conn.inputBuffer := c
        conn.pollable := pollableAfter recvs s
        history.reports := reports } :=
    fun c reports => hsends.imp (fun hover => hover.receive recvs c reports)
      fun hsending => hsending.receive recvs c reports
  simp only [wp_ite, wp_pure]
  split
  · have hfuel : (partialLine input ++ received recvs).length < b.getReadableSize + 1 := by
      rw [← hbytes, hb.length_unread]
      exact Nat.lt_succ_self _
    rw [messageCallback, wp_bind, wp_get]
    refine wp_mono (messageLoop_prints hb hbytes hfuel) (fun _ t ht => ?_) fun _ _ h => h.elim
    obtain ⟨c, hc, hleft, rfl⟩ := ht
    refine ⟨hafter c _, ?_, fun _ => ⟨hc, by rw [hleft, htail]⟩⟩
    rw [hlines, ← hprinted]
  · rename_i hnone
    have hnil : received recvs = [] := by
      rw [← List.length_eq_zero_iff]
      omega
    rw [hnil, List.append_nil] at hbytes ⊢
    exact ⟨hafter b _, hprinted, fun _ => ⟨hb, hbytes⟩⟩

theorem Prints.aside (hs : Prints input typed s) (haside : Aside s t) {more : List UInt8}
    (hsends : Over more t ∨ Sending more t) : Prints input more t where
  sends := hsends
  printed := haside.reports.trans hs.printed
  reads hreading := by
    obtain ⟨hinput, hreads⟩ := haside.input (t.conn.pollable.reading_attached hreading)
    rw [hinput]
    exact hs.reads (hreads ▸ hreading)

theorem writeEvent_prints (hs : Prints input typed s) :
    wp (writeEventCallback (runWriteComplete script depth)) (fun _ => Prints input typed) Anything
      s := by
  cases hs.sends with
  | inl hover =>
    refine wp_mono (writeEvent_over hover.closed) (fun _ t ht => ?_) fun _ _ => id
    rwa [ht]
  | inr hsending =>
    refine wp_mono (writeEvent_rule hsending) (fun _ t ht => ?_) fun _ _ => id
    exact hs.aside ht.2 (ht.1.imp_left And.left)

theorem dispatch_prints {activeEvents : UInt32} (hs : Prints input typed s)
    (hpolled : has activeEvents eventTypeRead = true → s.conn.pollable.isReading = true) :
    wp (dispatchActiveEvents (runWriteComplete script depth) activeEvents recvs messageCallback)
      (fun _ => Prints (input ++ if has activeEvents eventTypeRead then received recvs else [])
        typed) Anything s := by
  -- a close event before the read event does not keep the client from printing
  let Polled : State κ (List UInt8) → Prop := fun t => Prints input typed t ∧
    (has activeEvents eventTypeRead = true →
      t.conn.inputBuffer.Valid ∧ t.conn.inputBuffer.unread = partialLine input)
  have hstart : Polled s := ⟨hs, fun hread => hs.reads (hpolled hread)⟩
  have hclose : wp closeEventCallback (fun _ => Polled) Anything s := by
    have hdetached : s.conn.pollable.detachFromPoller.isDetached = true :=
      PollableFileDescriptor.detachFromPoller_isDetached _
    have htaken : s.history.accepted <+: typed := hs.sends.elim Over.taken Sending.taken
    have hcallback : s.conn.writeCompleteCallback = none :=
      hs.sends.elim Over.callback Sending.callback
    refine ⟨⟨.inl ⟨.inl hdetached, htaken, hcallback⟩, hs.printed, fun hreading => ?_⟩, hstart.2⟩
    simp at hreading
  refine wp_seq (I := Polled) (Kept.dispatchEvent hstart fun _ => hclose) fun _ t ht => ?_
  refine wp_seq (I := Polled)
    (Kept.dispatchEvent ht fun _ => show wp errorEventCallback _ _ _ from ht) fun _ t ht => ?_
  refine wp_seq (I := Prints (input ++
    if has activeEvents eventTypeRead then received recvs else []) typed) ?_ fun _ t ht => ?_
  · cases hread : has activeEvents eventTypeRead with
    | true =>
      simp only [dispatchEvent, hread, if_true]
      obtain ⟨hinput, hunread⟩ := ht.2 hread
      refine wp_mono (readEvent_rule
        (receiveAndProcess_prints ht.1.sends ht.1.printed hinput hunread)
        fun v hv => hv.sends) (fun _ v hv => ?_) fun _ _ => id
      obtain ⟨w, hw, hsame | hended⟩ := hv
      · rwa [hsame]
      · obtain ⟨hreading, hsends, hreports⟩ := hended
        refine ⟨hsends, hreports.trans hw.printed, fun hread => ?_⟩
        rw [hreading] at hread
        cases hread
    | false =>
      simp only [dispatchEvent, hread, Bool.false_eq_true, if_false, List.append_nil]
      exact ht.1
  · exact Kept.dispatchEvent ht fun _ => writeEvent_prints ht

/-- Nothing that is typed gets through on a closed connection. -/
theorem readStdin_over {sent : List UInt8} (reads : List RecvResult) (hs : Over sent s)
    (hkernel : s.conn.pollable.isDetached = true ∨
      s.kernel.sends.head? = some (.error .EPIPE)) :
    wp (readStdin (runWriteComplete script depth) reads) (fun _ t => Over sent t ∧ Aside s t)
      Anything s := by
  induction reads generalizing s with
  | nil => exact ⟨hs, .refl s⟩
  | cons answer rest ih =>
    cases answer with
    | read data =>
      simp only [readStdin, wp_ite, wp_bind, wp_throw]
      split
      · refine wp_mono (send_over hs hkernel) (fun _ t ht => ?_) fun _ _ => id
        obtain ⟨⟨hover, hkernel'⟩, haside⟩ := ht
        refine wp_mono (ih hover hkernel') (fun _ v hv => ?_) fun _ _ => id
        exact ⟨hv.1, haside.trans hv.2⟩
      · trivial
    | error errno =>
      cases errno with
      | EAGAIN => exact ⟨hs, .refl s⟩
      | EWOULDBLOCK => trivial
      | EPIPE => trivial
      | ENOTCONN => trivial
      | other code => trivial

/-- What is typed is sent, up to the point where the peer is found gone. -/
theorem readStdin_sending {sent : List UInt8} (reads : List RecvResult) (hs : Sending sent s) :
    wp (readStdin (runWriteComplete script depth) reads)
      (fun _ t => (Over (sent ++ received reads) t ∨ Sending (sent ++ received reads) t) ∧
        Aside s t) Anything s := by
  induction reads generalizing s sent with
  | nil =>
    rw [received, List.append_nil]
    exact ⟨.inr hs, .refl s⟩
  | cons answer rest ih =>
    cases answer with
    | read data =>
      simp only [readStdin, wp_ite, wp_bind, wp_throw]
      split
      · rename_i hdata
        rw [received, if_pos hdata, ← List.append_assoc]
        refine wp_mono (send_rule hs) (fun _ t ht => ?_) fun _ _ => id
        obtain ⟨ht, haside⟩ := ht
        cases ht with
        | inl hover =>
          have hbound := hover.1.mono (List.prefix_append _ (received rest))
          refine wp_mono (readStdin_over rest hbound (.inl hover.2)) (fun _ v hv => ?_)
            fun _ _ => id
          exact ⟨.inl hv.1, haside.trans hv.2⟩
        | inr hsending =>
          refine wp_mono (ih hsending) (fun _ v hv => ?_) fun _ _ => id
          exact ⟨hv.1, haside.trans hv.2⟩
      · trivial
    | error errno =>
      cases errno with
      | EAGAIN =>
        rw [received, List.append_nil]
        exact ⟨.inr hs, .refl s⟩
      | EWOULDBLOCK => trivial
      | EPIPE => trivial
      | ENOTCONN => trivial
      | other code => trivial

theorem connected_prints {timeStamp : Int} {context : Option κ} :
    Prints [] [] (connected timeStamp context) where
  sends := .inr ⟨rfl, rfl, ⟨MutableSizeTcpBuffer.valid_new, rfl, fun _ => rfl⟩, rfl, rfl⟩
  printed := rfl
  reads _ := ⟨MutableSizeTcpBuffer.valid_new, rfl⟩

theorem Prints.ready (hs : Prints input typed s) (kernel : Kernel) :
    Prints input typed { s with kernel := kernel } where
  sends := hs.sends.imp (fun hover => hover.of_same rfl rfl rfl rfl)
    fun hsending => hsending.of_same rfl rfl rfl rfl rfl rfl rfl
  printed := hs.printed
  reads := hs.reads

theorem Turn.prints {a b : Client κ} (hturn : Turn script depth a b)
    (ha : Prints a.input a.typed a.state) : Prints b.input b.typed b.state := by
  cases hturn with
  | @dispatch s t input typed kernel activeEvents recvs hpolled h =>
    have hs : Prints input typed { s with kernel := kernel } := ha.ready kernel
    have ht := wp_of_ok (dispatch_prints hs hpolled) h
    exact ht
  | @stdin s t input typed kernel reads hkernel h =>
    have hs : Prints input typed { s with kernel := kernel } := ha.ready kernel
    cases hs.sends with
    | inl hover =>
      have hover' := hover.mono (List.prefix_append typed (received reads))
      have hgone := hover.closed.imp_right hkernel
      obtain ⟨hsends, haside⟩ := wp_of_ok (readStdin_over reads hover' hgone) h
      exact hs.aside haside (.inl hsends)
    | inr hsending =>
      obtain ⟨hsends, haside⟩ := wp_of_ok (readStdin_sending reads hsending) h
      exact hs.aside haside hsends
  | @stop s t input typed kernel h =>
    have hs : Prints input typed { s with kernel := kernel } := ha.ready kernel
    have htaken := hs.sends.elim Over.taken Sending.taken
    have hcallback := hs.sends.elim Over.callback Sending.callback
    obtain ⟨hover, haside⟩ := wp_of_ok (shutdownWrite_rule htaken hcallback) h
    exact hs.aside haside (.inl hover)

end XubinhServer.EchoClient

import XubinhServer.TcpConnectSocketfd.Runs

/-! The bytes that the kernel has taken and the unread bytes of the output buffer are together
what has been sent, in order, and a connection that does not listen for write events has
nothing left to send. -/
namespace XubinhServer.TcpConnectSocketfd

open Halting EventPoller Transition

variable {κ ρ : Type}

/-- The data of a call of `send`. -/
def Call.data : Call → List UInt8
  | .send data => data
  | .shutdownWrite => []

/-- All the data that has been passed to `send`, in order. -/
def submitted (calls : List Call) : List UInt8 := calls.flatMap Call.data

/-- No call of `send` comes after a call of `shutdown_write`. -/
def SendsFirst (calls : List Call) : Prop :=
  calls.Pairwise fun a b => a = .shutdownWrite → b = .shutdownWrite

/-- The output is complete and in order. -/
structure InOrder (s : State κ ρ) : Prop where
  valid : s.conn.outputBuffer.Valid
  stream : s.history.accepted ++ s.conn.outputBuffer.unread = submitted s.history.calls
  idle : s.conn.pollable.isWriting = false → s.conn.outputBuffer.unread = []

/-- `InOrder`, while the connection is attached and nobody has called `shutdown_write`. -/
def Ordered (s : State κ ρ) : Prop :=
  s.conn.pollable.isDetached = false → s.conn.isWriteEndShutdown = false →
    SendsFirst s.history.calls → .shutdownWrite ∉ s.history.calls → InOrder s

/-- A completed call of `shutdown_write` leaves the write end shut. -/
def ShutRecorded (s : State κ ρ) : Prop :=
  .shutdownWrite ∈ s.history.calls → s.conn.isWriteEndShutdown = true

theorem submitted_append (calls : List Call) (data : List UInt8) :
    submitted (calls ++ [.send data]) = submitted calls ++ data := by
  simp [submitted, Call.data]

theorem sendsFirst_of_append {calls : List Call} {data : List UInt8}
    (h : SendsFirst (calls ++ [.send data])) :
    SendsFirst calls ∧ .shutdownWrite ∉ calls := by
  obtain ⟨hcalls, _, hlast⟩ := List.pairwise_append.mp h
  refine ⟨hcalls, fun hmem => ?_⟩
  have := hlast _ hmem (.send data) (by simp) rfl
  cases this

section Steps

def Anything (_ : Halt) (_ : State κ ρ) : Prop := True

variable {writeComplete : Comp κ ρ Unit} {s : State κ ρ}

theorem ordered_of_detached (h : s.conn.pollable.isDetached = true) : Ordered s := by
  intro hd
  rw [h] at hd
  cases hd

theorem ordered_of_shut (h : s.conn.isWriteEndShutdown = true) : Ordered s := by
  intro _ ho
  rw [h] at ho
  cases ho

theorem ordered_of_called (h : .shutdownWrite ∈ s.history.calls) : Ordered s :=
  fun _ _ _ hc => absurd h hc

theorem Ordered.of_same {t : State κ ρ} (hs : Ordered s)
    (hd : t.conn.pollable.isDetached = s.conn.pollable.isDetached)
    (hw : t.conn.pollable.isWriting = s.conn.pollable.isWriting)
    (hb : t.conn.outputBuffer = s.conn.outputBuffer)
    (ho : t.conn.isWriteEndShutdown = s.conn.isWriteEndShutdown)
    (hc : t.history.calls = s.history.calls) (ha : t.history.accepted = s.history.accepted) :
    Ordered t := by
  intro hd' ho' hf' hc'
  rw [hd] at hd'
  rw [ho] at ho'
  rw [hc] at hf' hc'
  have h := hs hd' ho' hf' hc'
  exact ⟨hb ▸ h.valid, by rw [ha, hb, hc]; exact h.stream, by rw [hw, hb]; exact h.idle⟩

theorem wp_abort {Q : Unit → State κ ρ → Prop}
    (h : ∀ t, t.conn.pollable.isDetached = true → Q () t) :
    wp abortFromEventLoop Q Anything s :=
  abortFromEventLoop_rule (fun _ _ => h _ (PollableFileDescriptor.detachFromPoller_isDetached _))
    (fun _ _ _ => trivial) (fun _ _ _ _ _ _ => trivial)

/-- What the kernel has not taken of new data goes behind the unread bytes. -/
theorem InOrder.queued {data : List UInt8} {n : Nat} {b : MutableSizeTcpBuffer} (h : InOrder s)
    (hn : n = 0 ∨ s.conn.outputBuffer.unread = [])
    (hb : s.conn.outputBuffer.append (data.drop n) = .ok b) :
    b.Valid ∧ (s.history.accepted ++ data.take n) ++ b.unread =
      submitted (s.history.calls ++ [.send data]) := by
  obtain ⟨c, hc, hvalid, hunread⟩ := MutableSizeTcpBuffer.append_spec h.valid (data.drop n)
  rw [hb] at hc
  cases hc
  refine ⟨hvalid, ?_⟩
  rw [submitted_append, hunread, ← h.stream]
  cases hn with
  | inl hzero => simp [hzero]
  | inr hempty => simp [hempty]

/-- Data that does not follow a `shutdown_write` is taken or appended behind what is left. -/
theorem send_ordered (data : List UInt8) (hw : Keeps Ordered Anything writeComplete) :
    Keeps Ordered Anything (send writeComplete data) := by
  intro s hs
  simp only [send, record, wp_bind, wp_modify, wp_get, wp_ite, wp_pure]
  split
  · rename_i hd
    exact ordered_of_detached hd
  · rename_i hattached
    split
    · rename_i hwriting
      refine wp_appendOutput (fun b hb => ?_) trivial
      intro hd ho hf _
      obtain ⟨hcalls, hc⟩ := sendsFirst_of_append hf
      have h := hs hd ho hcalls hc
      obtain ⟨hvalid, hstream⟩ := h.queued (n := 0) (.inl rfl) hb
      refine ⟨hvalid, by simpa using hstream, fun hidle => ?_⟩
      rw [hwriting] at hidle
      cases hidle
    · rename_i hwriting
      have hempty : ∀ h : InOrder s, s.conn.outputBuffer.unread = [] :=
        fun h => h.idle (by simpa using hwriting)
      apply sendAsManyData_rule
      · intro ks n hn
        simp only [wp_ite, wp_bind, enableWriteEvent]
        split
        · rename_i hall
          apply hw
          intro hd ho hf _
          obtain ⟨hcalls, hc⟩ := sendsFirst_of_append hf
          have h := hs hd ho hcalls hc
          refine ⟨h.valid, ?_, fun _ => hempty h⟩
          simp only [State.took]
          rw [submitted_append, ← h.stream, hempty h, hall, List.take_length]
          simp
        · refine wp_appendOutput (fun b hb => ?_) trivial
          intro hd ho hf _
          obtain ⟨hcalls, hc⟩ := sendsFirst_of_append hf
          have h := hs (by simpa using hattached) ho hcalls hc
          obtain ⟨hvalid, hstream⟩ := h.queued (.inr (hempty h)) hb
          exact ⟨hvalid, hstream, fun hidle => by simp at hidle⟩
      · intro ks n
        refine wp_abort fun t ht => ?_
        simp only [if_true]
        exact hw t (ordered_of_detached ht)

theorem shutdownWrite_ordered (hw : Keeps Ordered Anything writeComplete) :
    Keeps Ordered Anything (shutdownWrite writeComplete) := by
  intro s hs
  have hcalled : .shutdownWrite ∈ s.history.calls ++ [.shutdownWrite] := by simp
  simp only [shutdownWrite, record, nextShutdown, closeEventCallback, detachFromPoller,
    runCloseCallback, disableWriteEvent, wp_bind, wp_modify, wp_modifyGet, wp_get, wp_ite, wp_pure]
  split
  · exact ordered_of_called hcalled
  · split
    · exact wp_abort fun t => ordered_of_detached
    · split
      · exact wp_mono (hw _ (ordered_of_called hcalled)) (fun _ _ _ => ordered_of_shut rfl)
          (fun _ _ => id)
      · exact wp_mono (hw _ (ordered_of_called hcalled)) (fun _ _ _ => ordered_of_shut rfl)
          (fun _ _ => id)

/-- Nothing is left to send. -/
def Drained (s : State κ ρ) : Prop :=
  s.conn.pollable.isDetached = false → s.conn.isWriteEndShutdown = false →
    SendsFirst s.history.calls → .shutdownWrite ∉ s.history.calls →
    s.conn.outputBuffer.unread = []

theorem flushOutput_ordered (hs : Ordered s) :
    wp flushOutput (fun done t => Ordered t ∧ (done = true → Drained t)) Anything s := by
  refine flushOutput_rule ?_ ?_ fun hempty => ⟨hs, fun _ _ _ _ _ => hempty⟩
  · intro ks n hn
    have hforward := fun h : InOrder s =>
      MutableSizeTcpBuffer.forwardReadPosition_spec h.valid n
    constructor
    · intro hd ho hf hc
      have h := hs hd ho hf hc
      obtain ⟨hvalid, hunread⟩ := hforward h
      refine ⟨hvalid, ?_, fun hidle => ?_⟩
      · simp only [State.took]
        rw [hunread, ← h.stream, List.append_assoc, List.take_append_drop]
      · rw [hunread, h.idle hidle, List.drop_nil]
    · intro hdone hd ho hf hc
      obtain ⟨_, hunread⟩ := hforward (hs hd ho hf hc)
      rw [hunread, List.drop_eq_nil_iff]
      simpa using Nat.le_of_eq (of_decide_eq_true hdone).symm
  · intro ks n
    refine wp_abort fun t ht => ⟨ordered_of_detached ht, fun _ hd => ?_⟩
    rw [ht] at hd
    cases hd

theorem flushAndComplete_ordered (hw : Keeps Ordered Anything writeComplete) :
    Keeps Ordered Anything (flushAndComplete writeComplete) := by
  intro s hs
  refine flushAndComplete_rule (flushOutput_ordered hs) (fun t ht => ?_) fun _ ht => ht.1
  obtain ⟨ht, hdone⟩ := ht
  apply hw
  intro hd ho hf hc
  have h := ht (by simpa using hd) ho hf hc
  exact ⟨h.valid, h.stream, fun _ => hdone rfl (by simpa using hd) ho hf hc⟩

theorem kept_ordered : Kept (κ := κ) (ρ := ρ) Ordered Ordered Anything where
  halt _ _ _ _ := trivial
  count _ hs := hs.of_same rfl rfl rfl rfl rfl rfl
  disableRead _ hs := hs.of_same (by simp) (by simp) rfl rfl rfl rfl
  input _ _ hs := hs.of_same rfl rfl rfl rfl rfl rfl
  send _ data hw := send_ordered data hw
  shutdownWrite _ s _ hw _ hs := shutdownWrite_ordered hw s hs
  flush _ s hw hs _ _ := flushAndComplete_ordered hw s hs
  closure _ hs _ := hs
  finished _ hs _ := hs

theorem send_shutRecorded (data : List UInt8) (hw : Keeps ShutRecorded Anything writeComplete) :
    Keeps ShutRecorded Anything (send writeComplete data) := by
  intro s hs
  have hcalled : .shutdownWrite ∈ s.history.calls ++ [.send data] →
      s.conn.isWriteEndShutdown = true := by
    simpa [ShutRecorded] using hs
  simp only [send, record, wp_bind, wp_modify, wp_get, wp_ite, wp_pure]
  split
  · exact hcalled
  · split
    · exact wp_appendOutput (fun _ _ => hcalled) trivial
    · apply sendAsManyData_rule
      · intro ks n _
        simp only [wp_ite, wp_bind, enableWriteEvent]
        split
        · exact hw _ hcalled
        · exact wp_appendOutput (fun _ _ => hcalled) trivial
      · intro ks n
        refine abortFromEventLoop_rule (fun _ _ => ?_) (fun _ _ _ => trivial)
          (fun _ _ _ _ _ _ => trivial)
        simp only [if_true]
        exact hw _ fun _ => rfl

theorem shutdownWrite_shutRecorded :
    Keeps ShutRecorded Anything (shutdownWrite (κ := κ) (ρ := ρ) writeComplete) := by
  intro s hs
  simp only [shutdownWrite, record, nextShutdown, closeEventCallback, detachFromPoller,
    runCloseCallback, disableWriteEvent, wp_bind, wp_modify, wp_modifyGet, wp_get, wp_ite, wp_pure]
  split
  · rename_i hshut
    exact fun _ => hshut
  · split
    · exact abortFromEventLoop_rule (fun _ _ _ => rfl) (fun _ _ _ => trivial)
        (fun _ _ _ _ _ _ => trivial)
    · split
      · exact wp_mono (wp_true _ _) (fun _ _ _ _ => rfl) (fun _ _ => id)
      · exact wp_mono (wp_true _ _) (fun _ _ _ _ => rfl) (fun _ _ => id)

theorem flushAndComplete_shutRecorded (hw : Keeps ShutRecorded Anything writeComplete) :
    Keeps ShutRecorded Anything (flushAndComplete writeComplete) := by
  intro s hs
  have hflush : wp flushOutput (fun _ => ShutRecorded) Anything s := by
    refine flushOutput_rule (fun ks n _ => hs) (fun ks n => ?_) fun _ => hs
    exact abortFromEventLoop_rule (fun _ _ _ => rfl) (fun _ _ _ => trivial)
      (fun _ _ _ _ _ _ => trivial)
  exact flushAndComplete_rule hflush (fun t ht => hw _ ht) fun _ => id

theorem kept_shutRecorded : Kept (κ := κ) (ρ := ρ) ShutRecorded ShutRecorded Anything where
  halt _ _ _ _ := trivial
  count _ hs := hs
  disableRead _ hs := hs
  input _ _ hs := hs
  send _ data hw := send_shutRecorded data hw
  shutdownWrite _ s _ _ _ hs := shutdownWrite_shutRecorded s hs
  flush _ s hw hs _ _ := flushAndComplete_shutRecorded hw s hs
  closure _ hs _ := hs
  finished _ hs _ := hs

end Steps

variable {s t : State κ ρ}

theorem started_ordered (timeStamp : Int) (context : Option κ)
    (callback : Option WriteCompleteCallback) :
    Ordered (started (ρ := ρ) timeStamp context callback) := by
  intro _ _ _ _
  exact ⟨MutableSizeTcpBuffer.valid_new, rfl, fun _ => rfl⟩

theorem reaches_ordered {timeStamp : Int} {context : Option κ}
    {callback : Option WriteCompleteCallback} {script : Nat → List Call} {depth : Nat}
    (hr : Reaches (Step (runWriteComplete script depth)) (started timeStamp context callback) s) :
    Ordered s ∧ ShutRecorded s := by
  constructor
  · exact kept_ordered.reaches
      (fun s _ => ordered_of_detached (PollableFileDescriptor.detachFromPoller_isDetached _))
      (fun _ _ hs => hs.of_same rfl rfl rfl rfl rfl rfl) hr
      (started_ordered timeStamp context callback)
  · exact kept_shutRecorded.reaches (fun s hs => hs) (fun _ _ hs => hs) hr
      (by simp [ShutRecorded, started])

/-- A `shutdown_write` from here discards nothing that has been sent. -/
def NothingToDiscard (s : State κ ρ) : Prop :=
  SendsFirst s.history.calls → s.conn.pollable.isDetached = false →
    s.conn.isWriteEndShutdown = false → s.conn.pollable.isWriting = false →
    s.conn.outputBuffer.unread = []

theorem nothingToDiscard (h : Ordered s) (hs : ShutRecorded s) : NothingToDiscard s := by
  intro hf hd ho hidle
  have hc : .shutdownWrite ∉ s.history.calls := fun hmem => by
    rw [hs hmem] at ho
    cases ho
  exact (h hd ho hf hc).idle hidle

/-- As long as `send` is not called after `shutdown_write`: while the connection is attached
and its write end is open, the kernel has taken and the output buffer holds together exactly
what has been sent, and nothing waits while write events are disabled. This is so between two
operations, and where a read event and a write event go on to `shutdown_write`. -/
theorem output_in_order {timeStamp : Int} {context : Option κ}
    {callback : Option WriteCompleteCallback} {script : Nat → List Call} {depth : Nat}
    (hr : Reaches (Step (runWriteComplete script depth)) (started timeStamp context callback) s) :
    (SendsFirst s.history.calls → s.conn.pollable.isDetached = false →
      s.conn.isWriteEndShutdown = false →
      s.history.accepted ++ s.conn.outputBuffer.unread = submitted s.history.calls) ∧
    NothingToDiscard s ∧
    (∀ kernel recvs consumed calls,
      wp (receiveAndProcess recvs
          (userMessageCallback (runWriteComplete script depth) consumed calls))
        (fun _ => NothingToDiscard) Anything { s with kernel := kernel }) ∧
    (∀ kernel, s.conn.pollable.isDetached = false → s.conn.isWriteEndShutdown = false →
      wp (flushAndComplete (runWriteComplete script depth))
        (fun _ => NothingToDiscard) Anything { s with kernel := kernel }) := by
  obtain ⟨ho, hs⟩ := reaches_ordered hr
  have ho' : ∀ kernel, Ordered { s with kernel := kernel } :=
    fun _ => ho.of_same rfl rfl rfl rfl rfl rfl
  have hcallback : Keeps Ordered Anything (runWriteComplete (κ := κ) (ρ := ρ) script depth) :=
    kept_ordered.callback (fun _ => id) (fun _ _ _ => id) depth
  have hrecorded : Keeps ShutRecorded Anything
      (runWriteComplete (κ := κ) (ρ := ρ) script depth) :=
    kept_shutRecorded.callback (fun _ => id) (fun _ _ _ => id) depth
  refine ⟨fun hf hd hopen => ?_, nothingToDiscard ho hs, ?_, ?_⟩
  · have hc : .shutdownWrite ∉ s.history.calls := fun hmem => by
      rw [hs hmem] at hopen
      cases hopen
    exact (ho hd hopen hf hc).stream
  · intro kernel recvs consumed calls
    have hm := kept_ordered.messageCallback hcallback hcallback consumed
      fun (_ : .shutdownWrite ∈ calls) _ => id
    have hm' := kept_shutRecorded.messageCallback hrecorded hrecorded consumed
      fun (_ : .shutdownWrite ∈ calls) _ => id
    apply wp_mono (wp_and (kept_ordered.process hm recvs _ (ho' kernel))
      (kept_shutRecorded.process hm' recvs _ hs)) _ (fun _ _ _ => trivial)
    exact fun _ t ht => nothingToDiscard ht.1 ht.2
  · intro kernel hd hopen
    apply wp_mono (wp_and (kept_ordered.flush _ _ hcallback (ho' kernel) hd hopen)
      (kept_shutRecorded.flush _ _ hrecorded hs hd hopen)) _ (fun _ _ _ => trivial)
    exact fun _ t ht => nothingToDiscard ht.1 ht.2

/-- Two of four bytes taken at once and the third by a later write event. -/
theorem output_in_order_of_partial_send :
    ∃ s : State Unit Unit, s.history.accepted = bytes "abc" ∧
      s.conn.outputBuffer.unread = bytes "d" ∧
      s.history.accepted ++ s.conn.outputBuffer.unread = submitted s.history.calls := by
  obtain ⟨s, hr, ha, hu, hc, hd, ho⟩ := exists_reaches (runWriteComplete (fun _ => []) 1)
    (started 0 (some ()) none : State Unit Unit)
    [(⟨[.accepted 2, .error .EAGAIN], [], []⟩, .call (.send (bytes "abcd"))),
      (⟨[.accepted 1, .error .EAGAIN], [], []⟩, .dispatch epollOut [] 0 [])]
    (fun s => s.history.accepted = bytes "abc" ∧ s.conn.outputBuffer.unread = bytes "d" ∧
      s.history.calls = [.send (bytes "abcd")] ∧ s.conn.pollable.isDetached = false ∧
      s.conn.isWriteEndShutdown = false) (by decide)
  have hf : SendsFirst s.history.calls := by
    rw [hc]
    exact List.pairwise_singleton _ _
  exact ⟨s, ha, hu, (output_in_order hr).1 hf hd ho⟩

end XubinhServer.TcpConnectSocketfd

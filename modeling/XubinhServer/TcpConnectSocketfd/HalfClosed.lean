import XubinhServer.TcpConnectSocketfd.OutputOrder

/-! A connection whose peer has closed its end, and which has nothing left to send, has its own
write end shut. A read event that meets the end of the stream breaks this until its own end; the
write-complete callback is not called in between unless `send` calls it. -/
namespace XubinhServer.TcpConnectSocketfd

open Halting EventPoller Transition

variable {κ ρ : Type} {writeComplete messageCallback : Comp κ ρ Unit} {s : State κ ρ}

/-- An attached connection that listens for nothing has its write end shut. -/
def Settled (s : State κ ρ) : Prop :=
  s.conn.pollable.isDetached = false → s.conn.pollable.isReading = false →
    s.conn.pollable.isWriting = false → s.conn.isWriteEndShutdown = true

/-- A connection that listens for write events with its write end open has something to send. -/
def Busy (s : State κ ρ) : Prop :=
  s.conn.pollable.isDetached = false → s.conn.isWriteEndShutdown = false →
    s.conn.outputBuffer.Valid ∧
      (s.conn.pollable.isWriting = true → s.conn.outputBuffer.unread ≠ [])

theorem settled_of_shut (h : s.conn.isWriteEndShutdown = true) : Settled s :=
  fun _ _ _ => h

theorem settled_of_detached (h : s.conn.pollable.isDetached = true) : Settled s := by
  intro hd
  rw [h] at hd
  cases hd

theorem settled_of_reading (h : s.conn.pollable.isReading = true) : Settled s := by
  intro _ hr
  rw [h] at hr
  cases hr

theorem settled_of_writing (h : s.conn.pollable.isWriting = true) : Settled s := by
  intro _ _ hw
  rw [h] at hw
  cases hw

theorem Settled.of_same {t : State κ ρ} (hs : Settled s)
    (hp : t.conn.pollable = s.conn.pollable)
    (ho : t.conn.isWriteEndShutdown = s.conn.isWriteEndShutdown) : Settled t := by
  intro hd hr hw
  rw [hp] at hd hr hw
  rw [ho]
  exact hs hd hr hw

/-- A call of `shutdown_write` that returns leaves the write end shut. -/
theorem shutdownWrite_shut (s : State κ ρ) :
    wp (shutdownWrite writeComplete) (fun _ t => t.conn.isWriteEndShutdown = true) Anything s := by
  simp only [shutdownWrite, record, nextShutdown, closeEventCallback, detachFromPoller,
    runCloseCallback, disableWriteEvent, wp_bind, wp_modify, wp_modifyGet, wp_get, wp_ite, wp_pure]
  split
  · assumption
  · split
    · exact abortFromEventLoop_rule (fun _ _ => rfl) (fun _ _ _ => trivial)
        fun _ _ _ _ _ _ => trivial
    · split
      · exact wp_mono (wp_true _ _) (fun _ _ _ => rfl) fun _ _ _ => trivial
      · exact wp_mono (wp_true _ _) (fun _ _ _ => rfl) fun _ _ _ => trivial

theorem send_settled (data : List UInt8) (hw : Keeps Settled Anything writeComplete) :
    Keeps Settled Anything (send writeComplete data) := by
  intro s hs
  have hrecord : ∀ calls, Settled { s with history.calls := calls } :=
    fun _ => hs.of_same rfl rfl
  simp only [send, record, wp_bind, wp_modify, wp_get, wp_ite, wp_pure]
  split
  · exact hrecord _
  · split
    · rename_i hwriting
      exact wp_appendOutput (fun b _ => settled_of_writing hwriting) trivial
    · apply sendAsManyData_rule
      · intro ks n _
        have htook : Settled (State.took { s with history.calls :=
            s.history.calls ++ [.send data] } ks (data.take n)) := hs.of_same rfl rfl
        simp only [wp_ite, wp_bind, enableWriteEvent]
        split
        · exact hw _ htook
        · exact wp_appendOutput (fun b _ => settled_of_writing (by simp)) trivial
      · intro ks n
        refine wp_abort fun t ht => ?_
        simp only [if_true]
        exact hw t (settled_of_detached ht)

theorem runCalls_settled (hw : Keeps Settled Anything writeComplete) (calls : List Call) :
    Keeps Settled Anything (runCalls writeComplete calls) := by
  apply Keeps.forM
  intro call _ s hs
  cases call with
  | send data => exact send_settled data hw s hs
  | shutdownWrite =>
    exact wp_mono (shutdownWrite_shut s) (fun _ _ => settled_of_shut) fun _ _ => id

/-- Induction on the room that the call stack has for nested invocations. -/
theorem runWriteComplete_settled (script : Nat → List Call) (depth : Nat) :
    Keeps Settled Anything (runWriteComplete (κ := κ) (ρ := ρ) script depth) := by
  induction depth with
  | zero =>
    intro s hs
    simp only [runWriteComplete, wp_bind, wp_get, wp_ite, wp_throw, wp_pure]
    split
    · trivial
    · exact hs
  | succ depth ih =>
    intro s hs
    simp only [runWriteComplete, wp_bind, wp_get]
    cases hcallback : s.conn.writeCompleteCallback with
    | none => exact hs
    | some callback =>
      simp only [wp_bind, wp_get, wp_modify]
      cases callback with
      | user => exact runCalls_settled ih _ _ (hs.of_same rfl rfl)
      | shutdownWrite =>
        exact wp_mono (shutdownWrite_shut _) (fun _ _ => settled_of_shut) fun _ _ => id

/-- At its end, a read event has done the duty of a connection that no longer reads, from
whatever state it came. -/
theorem readEventCallback_settled (recvs : List RecvResult) (s : State κ ρ) :
    wp (readEventCallback writeComplete recvs messageCallback) (fun _ => Settled) Anything s := by
  refine wp_seq (I := fun _ => True) (wp_mono (wp_true _ s) (fun _ _ => id) fun _ _ => id)
    fun _ t _ => ?_
  simp only [wp_bind, wp_get, wp_ite, wp_modify, wp_pure]
  split
  · rename_i hreading
    exact settled_of_reading hreading
  · split
    · exact wp_mono (shutdownWrite_shut _) (fun _ _ => settled_of_shut) fun _ _ => id
    · rename_i hduty
      intro _ _ hwriting
      have hidle : t.conn.pollable.isWriting = false := hwriting
      simpa [hidle] using hduty

/-- A flush that leaves something behind changes no listening. -/
theorem flushAndComplete_settled (hs : Settled s) :
    wp (flushAndComplete writeComplete) (fun done t => done = false → Settled t) Anything s := by
  have hflush : wp flushOutput (fun done t => done = false → Settled t) Anything s := by
    refine flushOutput_rule ?_ ?_ fun _ hdone => nomatch hdone
    · exact fun ks n _ _ => hs.of_same rfl rfl
    · exact fun ks n => wp_abort fun t ht _ => settled_of_detached ht
  refine flushAndComplete_rule hflush (fun t _ => ?_) fun _ => id
  exact wp_mono (wp_true _ _) (fun _ _ _ hdone => nomatch hdone) fun _ _ => id

theorem writeEventCallback_settled :
    Keeps Settled Anything (writeEventCallback writeComplete) := by
  intro s hs
  simp only [writeEventCallback, wp_bind, wp_get, wp_ite, wp_pure]
  split
  · exact hs
  · split
    · exact hs
    · refine wp_mono (flushAndComplete_settled hs) (fun done t ht => ?_) fun _ _ => id
      cases done with
      | false => exact ht rfl
      | true =>
        simp only [if_true, wp_bind, wp_get, wp_ite, wp_pure]
        split
        · exact wp_mono (shutdownWrite_shut t) (fun _ _ => settled_of_shut) fun _ _ => id
        · rename_i hlistening
          intro _ hreading hwriting
          simp [hreading, hwriting] at hlistening

theorem dispatchActiveEvents_settled (activeEvents : UInt32) (recvs : List RecvResult) :
    Keeps Settled Anything
      (dispatchActiveEvents writeComplete activeEvents recvs messageCallback) := by
  intro s hs
  refine wp_seq (Kept.dispatchEvent hs fun _ => ?_) fun _ t ht => ?_
  · exact settled_of_detached (PollableFileDescriptor.detachFromPoller_isDetached _)
  refine wp_seq (Kept.dispatchEvent ht fun _ => show wp errorEventCallback _ _ _ from ht)
    fun _ t ht => ?_
  refine wp_seq (Kept.dispatchEvent ht fun _ => readEventCallback_settled recvs t)
    fun _ t ht => ?_
  exact Kept.dispatchEvent ht fun _ => writeEventCallback_settled t ht

/-- `Settled` holds between two operations, though not inside of them. -/
theorem reaches_settled {timeStamp : Int} {context : Option κ}
    {callback : Option WriteCompleteCallback} {script : Nat → List Call} {depth : Nat}
    (hr : Reaches (Step (runWriteComplete script depth)) (started timeStamp context callback) s) :
    Settled s := by
  refine hr.invariant (I := Settled) (settled_of_reading (by simp [started, start])) ?_
  intro a b ha hstep
  obtain ⟨kernel, operation, hb⟩ := hstep
  have ha' : Settled { a with kernel := kernel } := ha.of_same rfl rfl
  cases operation with
  | call call =>
    cases call with
    | send data =>
      exact wp_of_ok (send_settled data (runWriteComplete_settled script depth) _ ha') hb
    | shutdownWrite =>
      have hshut := wp_of_ok (shutdownWrite_shut { a with kernel := kernel }) hb
      exact settled_of_shut hshut
  | dispatch activeEvents recvs consumed calls =>
    exact wp_of_ok (dispatchActiveEvents_settled activeEvents recvs _ ha') hb

theorem busy_of_detached (h : s.conn.pollable.isDetached = true) : Busy s := by
  intro hd
  rw [h] at hd
  cases hd

theorem busy_of_shut (h : s.conn.isWriteEndShutdown = true) : Busy s := by
  intro _ ho
  rw [h] at ho
  cases ho

theorem Busy.of_same {t : State κ ρ} (hs : Busy s)
    (hd : t.conn.pollable.isDetached = s.conn.pollable.isDetached)
    (hw : t.conn.pollable.isWriting = true → s.conn.pollable.isWriting = true)
    (hb : t.conn.outputBuffer = s.conn.outputBuffer)
    (ho : t.conn.isWriteEndShutdown = s.conn.isWriteEndShutdown) : Busy t := by
  intro hd' ho'
  rw [hd] at hd'
  rw [ho] at ho'
  rw [hb]
  obtain ⟨hvalid, hunread⟩ := hs hd' ho'
  exact ⟨hvalid, fun hwriting => hunread (hw hwriting)⟩

theorem send_busy (data : List UInt8) (hw : Keeps Busy Anything writeComplete) :
    Keeps Busy Anything (send writeComplete data) := by
  intro s hs
  simp only [send, record, wp_bind, wp_modify, wp_get, wp_ite, wp_pure]
  split
  · rename_i hd
    exact busy_of_detached hd
  · rename_i hattached
    split
    · rename_i hwriting
      refine wp_appendOutput (fun b hb => ?_) trivial
      intro hd ho
      obtain ⟨hvalid, hunread⟩ := hs hd ho
      obtain ⟨c, hc, hvalid', hunread'⟩ := MutableSizeTcpBuffer.append_spec hvalid data
      cases hc.symm.trans hb
      refine ⟨hvalid', fun _ hempty => hunread hwriting ?_⟩
      exact (List.append_eq_nil_iff.mp (hunread'.symm.trans hempty)).1
    · rename_i hidle
      apply sendAsManyData_rule
      · intro ks n hn
        simp only [wp_ite, wp_bind, enableWriteEvent]
        split
        · exact hw _ (hs.of_same rfl id rfl rfl)
        · rename_i hpart
          refine wp_appendOutput (fun b hb => ?_) trivial
          intro _ ho
          obtain ⟨hvalid, _⟩ := hs (by simpa using hattached) ho
          obtain ⟨c, hc, hvalid', hunread'⟩ :=
            MutableSizeTcpBuffer.append_spec hvalid (data.drop n)
          cases hc.symm.trans hb
          refine ⟨hvalid', fun _ hempty => hpart ?_⟩
          have hrest := (List.append_eq_nil_iff.mp (hunread'.symm.trans hempty)).2
          exact Nat.le_antisymm hn (List.drop_eq_nil_iff.mp hrest)
      · intro ks n
        refine wp_abort fun t ht => ?_
        simp only [if_true]
        exact hw t (busy_of_detached ht)

theorem shutdownWrite_busy (writeComplete : Comp κ ρ Unit) :
    Keeps Busy Anything (shutdownWrite writeComplete) :=
  fun s _ => wp_mono (shutdownWrite_shut s) (fun _ _ => busy_of_shut) fun _ _ => id

theorem flushAndComplete_busy (hw : Keeps Busy Anything writeComplete) :
    Keeps Busy Anything (flushAndComplete writeComplete) := by
  intro s hs
  have hflush : wp flushOutput
      (fun done t => (done = true → t.conn.pollable.isDetached = false →
          t.conn.isWriteEndShutdown = false → t.conn.outputBuffer.Valid) ∧
        (done = false → Busy t)) Anything s := by
    refine flushOutput_rule ?_ ?_ fun _ =>
      ⟨fun _ hd ho => (hs hd ho).1, fun hdone => nomatch hdone⟩
    · intro ks n hn
      refine ⟨fun _ hd ho => ?_, fun hdone hd ho => ?_⟩
      · exact (MutableSizeTcpBuffer.forwardReadPosition_spec (hs hd ho).1 n).1
      · obtain ⟨hvalid, hunread⟩ :=
          MutableSizeTcpBuffer.forwardReadPosition_spec (hs hd ho).1 n
        refine ⟨hvalid, fun _ hempty => of_decide_eq_false hdone ?_⟩
        have hrest := hunread.symm.trans hempty
        exact Nat.le_antisymm hn (List.drop_eq_nil_iff.mp hrest)
    · intro ks n
      refine wp_abort fun t ht => ⟨fun _ hd => ?_, fun _ => busy_of_detached ht⟩
      rw [ht] at hd
      cases hd
  refine flushAndComplete_rule hflush (fun t ht => ?_) fun _ ht => ht.2 rfl
  refine hw _ fun hd ho => ⟨ht.1 rfl (by simpa using hd) ho, fun hwriting => ?_⟩
  simp at hwriting

theorem kept_busy : Kept (κ := κ) (ρ := ρ) Busy Busy Anything where
  halt _ _ _ _ := trivial
  count _ hs := hs.of_same rfl id rfl rfl
  disableRead _ hs := hs.of_same (by simp) (by simp) rfl rfl
  input _ _ hs := hs.of_same rfl id rfl rfl
  send _ data hw := send_busy data hw
  shutdownWrite writeComplete s _ _ _ hs := shutdownWrite_busy writeComplete s hs
  flush _ s hw hs _ _ := flushAndComplete_busy hw s hs
  closure _ hs _ := hs
  finished _ hs _ := hs

theorem reaches_busy {timeStamp : Int} {context : Option κ}
    {callback : Option WriteCompleteCallback} {script : Nat → List Call} {depth : Nat}
    (hr : Reaches (Step (runWriteComplete script depth)) (started timeStamp context callback) s) :
    Busy s :=
  kept_busy.reaches
    (fun _ _ => busy_of_detached (PollableFileDescriptor.detachFromPoller_isDetached _))
    (fun _ _ hs => hs.of_same rfl id rfl rfl) hr
    fun _ _ => ⟨MutableSizeTcpBuffer.valid_new, fun hw => nomatch show false = true from hw⟩

/-- In any run, once an operation is over: an attached connection that reads no more and does
not listen for write events, or has nothing left to send, has its write end shut. -/
theorem half_closed_shut {timeStamp : Int} {context : Option κ}
    {callback : Option WriteCompleteCallback} {script : Nat → List Call} {depth : Nat}
    (hr : Reaches (Step (runWriteComplete script depth)) (started timeStamp context callback) s)
    (hattached : s.conn.pollable.isDetached = false)
    (hread : s.conn.pollable.isReading = false) :
    (s.conn.pollable.isWriting = false → s.conn.isWriteEndShutdown = true) ∧
      (s.conn.outputBuffer.unread = [] → s.conn.isWriteEndShutdown = true) := by
  have hsettled := reaches_settled hr hattached hread
  refine ⟨hsettled, fun hempty => ?_⟩
  by_contra hopen
  have hbusy := (reaches_busy hr hattached (by simpa using hopen)).2
  cases hwriting : s.conn.pollable.isWriting with
  | false => exact hopen (hsettled hwriting)
  | true => exact hbusy hwriting hempty

/-- The end of the stream comes while a byte is waiting, which a later write event sends. -/
theorem half_closed_shut_of_waiting :
    ∃ s : State Unit Unit, s.history.accepted = bytes "ab" ∧
      (s.conn.pollable.isWriting = false → s.conn.isWriteEndShutdown = true) ∧
      (s.conn.outputBuffer.unread = [] → s.conn.isWriteEndShutdown = true) := by
  obtain ⟨s, hr, haccepted, hd, hread⟩ := exists_reaches (runWriteComplete (fun _ => []) 1)
    (started 0 (some ()) none : State Unit Unit)
    [(⟨[.accepted 1, .error .EAGAIN], [], []⟩,
        .dispatch epollIn [.read (bytes "x"), .error .EAGAIN] 1 [.send (bytes "ab")]),
      (⟨[], [], []⟩, .dispatch epollIn [.read []] 0 []),
      (⟨[], [], []⟩, .dispatch epollOut [] 0 [])]
    (fun s => s.history.accepted = bytes "ab" ∧ s.conn.pollable.isDetached = false ∧
      s.conn.pollable.isReading = false) (by decide)
  exact ⟨s, haccepted, half_closed_shut hr hd hread⟩

end XubinhServer.TcpConnectSocketfd

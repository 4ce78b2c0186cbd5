import XubinhServer.TcpConnectSocketfd.Steps

/-! The invariants of a connection. What the two public methods, the flush of the output and
the small changes of state keep, every callback and every dispatch keeps. -/
namespace XubinhServer.TcpConnectSocketfd

open Halting EventPoller

variable {κ ρ : Type} {A I : State κ ρ → Prop} {E : Halt → State κ ρ → Prop}

theorem wp_appendInput {data : List UInt8} {s : State κ ρ} {Q : Unit → State κ ρ → Prop}
    (hok : ∀ b, s.conn.inputBuffer.append data = .ok b →
      Q () { s with conn.inputBuffer := b })
    (hnull : E .nullPointer s) : wp (appendInput data) Q E s := by
  simp only [appendInput, wp_bind, wp_get, wp_liftPure]
  cases h : s.conn.inputBuffer.append data with
  | ok b => exact hok b h
  | error e =>
    cases MutableSizeTcpBuffer.append_error h
    exact hnull

theorem wp_appendOutput {data : List UInt8} {s : State κ ρ} {Q : Unit → State κ ρ → Prop}
    (hok : ∀ b, s.conn.outputBuffer.append data = .ok b →
      Q () { s with conn.outputBuffer := b })
    (hnull : E .nullPointer s) : wp (appendOutput data) Q E s := by
  simp only [appendOutput, wp_bind, wp_get, wp_liftPure]
  cases h : s.conn.outputBuffer.append data with
  | ok b => exact hok b h
  | error e =>
    cases MutableSizeTcpBuffer.append_error h
    exact hnull

/-- Receiving fills the input buffer and may disable reading. -/
theorem receiveLoop_keeps (hinput : ∀ s b, I s → I { s with conn.inputBuffer := b })
    (hread : ∀ s, I s → I { s with conn.pollable := s.conn.pollable.disableReadEvent })
    (hnull : ∀ s, I s → E .nullPointer s) (recvs : List RecvResult) (total : Nat) :
    Keeps I E (receiveLoop recvs total) := by
  induction recvs generalizing total with
  | nil => exact fun s hs => hs
  | cons answer rest ih =>
    intro s hs
    unfold receiveLoop
    cases answer with
    | read data =>
      simp only [wp_ite, wp_bind, disableReadEvent, wp_modify, wp_pure]
      split
      · exact wp_appendInput (fun b _ => ih _ _ (hinput s b hs)) (hnull s hs)
      · exact hread s hs
    | error errno =>
      cases errno with
      | EAGAIN => exact hs
      | EWOULDBLOCK => exact hs
      | EPIPE => exact ih total s hs
      | ENOTCONN => exact ih total s hs
      | other code => exact ih total s hs

/-- Whether the answers of `::recv` bring any bytes. -/
def delivers : List RecvResult → Bool
  | [] => false
  | .read data :: _ => 0 < data.length
  | .error .EAGAIN :: _ | .error .EWOULDBLOCK :: _ => false
  | .error _ :: rest => delivers rest

theorem receiveLoop_delivers (recvs : List RecvResult) (total : Nat) (s : State κ ρ) :
    wp (receiveLoop recvs total) (fun n _ => n ≠ total → delivers recvs = true)
      (fun _ _ => True) s := by
  induction recvs with
  | nil => exact fun h => absurd rfl h
  | cons answer rest ih =>
    unfold receiveLoop
    cases answer with
    | read data =>
      simp only [wp_ite, wp_bind, disableReadEvent, wp_modify, wp_pure]
      split
      · rename_i hdata
        exact wp_mono (wp_true _ _) (fun _ _ _ =>
          wp_mono (wp_true _ _) (fun _ _ _ _ => decide_eq_true hdata) (fun _ _ => id))
          (fun _ _ => id)
      · exact fun h => absurd rfl h
    | error errno =>
      cases errno with
      | EAGAIN => exact fun h => absurd rfl h
      | EWOULDBLOCK => exact fun h => absurd rfl h
      | EPIPE => exact ih
      | ENOTCONN => exact ih
      | other code => exact ih

/-- `I` is kept and a halt ends in `E`, whatever the callbacks do, as long as `shutdown_write`
is called in `A` only. -/
structure Kept (A I : State κ ρ → Prop) (E : Halt → State κ ρ → Prop) : Prop where
  halt : ∀ s e, I s → e = .stackOverflow ∨ e = .nullPointer → E e s
  count : ∀ s, I s →
    I { s with history.writeCompleteRuns := s.history.writeCompleteRuns + 1 }
  disableRead : ∀ s, I s → I { s with conn.pollable := s.conn.pollable.disableReadEvent }
  input : ∀ s b, I s → I { s with conn.inputBuffer := b }
  send : ∀ writeComplete data, Keeps I E writeComplete → Keeps I E (send writeComplete data)
  shutdownWrite : ∀ writeComplete s, Keeps A E writeComplete → Keeps I E writeComplete →
    A s → I s → wp (shutdownWrite writeComplete) (fun _ => I) E s
  flush : ∀ writeComplete s, Keeps I E writeComplete → I s →
    s.conn.pollable.isDetached = false → s.conn.isWriteEndShutdown = false →
    wp (flushAndComplete writeComplete) (fun _ => I) E s
  closure : ∀ s, I s → s.conn.writeCompleteCallback = some .shutdownWrite → A s
  finished : ∀ s, I s → s.conn.pollable.isReading = false → A s

namespace Kept

variable {writeComplete messageCallback : Comp κ ρ Unit}

theorem calls (h : Kept A I E) (hA : Keeps A E writeComplete) (hw : Keeps I E writeComplete)
    {calls : List Call} (hcalls : .shutdownWrite ∈ calls → ∀ s, I s → A s) :
    Keeps I E (runCalls writeComplete calls) := by
  apply Keeps.forM
  intro call hmem s hs
  cases call with
  | send data => exact h.send _ data hw s hs
  | shutdownWrite => exact h.shutdownWrite _ s hA hw (hcalls hmem s hs) hs

/-- Induction on the room that the call stack has for nested invocations. -/
theorem callback (h : Kept A I E) {script : Nat → List Call}
    (hA : ∀ depth, Keeps I E (runWriteComplete script depth) →
      Keeps A E (runWriteComplete script depth))
    (hscript : ∀ k, .shutdownWrite ∈ script k → ∀ s, I s → A s) (depth : Nat) :
    Keeps I E (runWriteComplete script depth) := by
  induction depth with
  | zero =>
    intro s hs
    simp only [runWriteComplete, wp_bind, wp_get, wp_ite, wp_throw, wp_pure]
    split
    · exact h.halt s _ hs (.inl rfl)
    · exact hs
  | succ depth ih =>
    intro s hs
    simp only [runWriteComplete, wp_bind, wp_get]
    cases hcb : s.conn.writeCompleteCallback with
    | none => exact hs
    | some callback =>
      have hcount := h.count s hs
      simp only [wp_bind, wp_get, wp_modify]
      cases callback with
      | user => exact h.calls (hA depth ih) ih (hscript _) _ hcount
      | shutdownWrite =>
        exact h.shutdownWrite _ _ (hA depth ih) ih (h.closure _ hcount hcb) hcount

theorem receive (h : Kept A I E) (recvs : List RecvResult) (total : Nat) :
    Keeps I E (receiveLoop (κ := κ) (ρ := ρ) recvs total) :=
  receiveLoop_keeps h.input h.disableRead (fun s hs => h.halt s _ hs (.inr rfl)) recvs total

theorem process (h : Kept A I E) (hm : Keeps I E messageCallback) (recvs : List RecvResult) :
    Keeps I E (receiveAndProcess recvs messageCallback) := by
  intro s hs
  refine wp_seq (h.receive recvs 0 s hs) fun total t ht => ?_
  simp only [wp_ite, wp_pure]
  split
  · exact hm t ht
  · exact ht

/-- What a read event keeps, if receiving and processing keep it. -/
theorem readEvent (h : Kept A I E) (hA : Keeps A E writeComplete)
    (hw : Keeps I E writeComplete) {recvs : List RecvResult} {s : State κ ρ}
    (hs : wp (receiveAndProcess recvs messageCallback) (fun _ => I) E s) :
    wp (readEventCallback writeComplete recvs messageCallback) (fun _ => I) E s := by
  refine wp_seq hs fun _ t ht => ?_
  have hinput := h.input t t.conn.inputBuffer.release ht
  simp only [wp_bind, wp_get, wp_ite, wp_modify, wp_pure]
  split
  · exact ht
  · rename_i hread
    split
    · exact h.shutdownWrite _ _ hA hw (h.finished _ hinput (by simpa using hread)) hinput
    · exact hinput

theorem writeEvent (h : Kept A I E) (hA : Keeps A E writeComplete)
    (hw : Keeps I E writeComplete) : Keeps I E (writeEventCallback writeComplete) := by
  intro s hs
  simp only [writeEventCallback, wp_bind, wp_get, wp_ite, wp_pure]
  split
  · exact hs
  · split
    · exact hs
    · rename_i hd ho
      apply wp_mono (h.flush _ s hw hs (by simpa using hd) (by simpa using ho)) _ (fun _ _ => id)
      intro flushed t ht
      split
      · simp only [wp_bind, wp_get, wp_ite, wp_pure]
        split
        · rename_i hidle
          have hread : t.conn.pollable.isReading = false := by
            simp only [Bool.and_eq_true, Bool.not_eq_true'] at hidle
            exact hidle.1
          exact h.shutdownWrite _ _ hA hw (h.finished t ht hread) ht
        · exact ht
      · exact ht

theorem dispatchEvent {callback : Comp κ ρ Unit} {activeEvents eventType : UInt32}
    {s : State κ ρ} (hs : I s)
    (hc : has activeEvents eventType = true → wp callback (fun _ => I) E s) :
    wp (TcpConnectSocketfd.dispatchEvent activeEvents eventType callback) (fun _ => I) E s := by
  simp only [TcpConnectSocketfd.dispatchEvent, wp_ite, wp_pure]
  split
  · rename_i hactive
    exact hc hactive
  · exact hs

/-- A dispatch keeps what its close event keeps. -/
theorem dispatch (h : Kept A I E) (hA : Keeps A E writeComplete)
    (hw : Keeps I E writeComplete) (hm : Keeps I E messageCallback) {activeEvents : UInt32}
    {recvs : List RecvResult} {s : State κ ρ} (hs : I s)
    (hc : has activeEvents eventTypeClose = true → wp closeEventCallback (fun _ => I) E s) :
    wp (dispatchActiveEvents writeComplete activeEvents recvs messageCallback)
      (fun _ => I) E s := by
  refine wp_seq (dispatchEvent hs hc) fun _ t ht => ?_
  refine wp_seq (dispatchEvent ht fun _ => show wp errorEventCallback _ _ _ from ht)
    fun _ t ht => ?_
  refine wp_seq (dispatchEvent ht fun _ => h.readEvent hA hw (h.process hm recvs t ht))
    fun _ t ht => ?_
  exact dispatchEvent ht fun _ => h.writeEvent hA hw t ht

end Kept

/-- The halts that the methods of a connection cause by themselves. -/
def ConnectionHalt (e : Halt) : Prop :=
  e = .stackOverflow ∨ e = .nullPointer ∨ e = .logFatal "never reaches here" ∨
    e = .logFatal "setsockopt failed" ∨ e = .logFatal "close failed"

theorem wp_abort_of (hE : ∀ e s, ConnectionHalt e → E e s) {s : State κ ρ}
    {Q : Unit → State κ ρ → Prop}
    (hQ : s.conn.isAborted = false → s.conn.isReset = false → Q () s.aborted) :
    wp abortFromEventLoop Q E s := by
  apply abortFromEventLoop_rule hQ
  · exact fun _ t _ => hE _ t (.inr (.inr (.inl rfl)))
  · intro _ _ m t hm _
    exact hE _ t (.inr (.inr (.inr (hm.imp (congrArg _) (congrArg _)))))

/-- What `I` has to allow for all methods but `shutdown_write` to keep it: the changes of state
that they are made of. -/
structure Stable (I : State κ ρ → Prop) : Prop where
  count : ∀ s, I s →
    I { s with history.writeCompleteRuns := s.history.writeCompleteRuns + 1 }
  record : ∀ s call, I s → I { s with history.calls := s.history.calls ++ [call] }
  took : ∀ s sends data, I s → I (s.took sends data)
  answered : ∀ s answers, I s → I { s with kernel.shutdowns := answers }
  pollable : ∀ s p, (p.isReading = true → s.conn.pollable.isReading = true) →
    (s.conn.pollable.isDetached = true → p.isDetached = true) → I s →
    I { s with conn.pollable := p }
  input : ∀ s b, I s → I { s with conn.inputBuffer := b }
  output : ∀ s b, (s.conn.outputBuffer.Valid → b.Valid) → I s →
    I { s with conn.outputBuffer := b }
  closed : ∀ s n, I s → I { s with history.closeCallbackRuns := n }
  aborted : ∀ s, I s → I s.aborted

namespace Stable

variable {writeComplete : Comp κ ρ Unit} (hE : ∀ e s, ConnectionHalt e → E e s)

theorem disableWrite (h : Stable I) {s : State κ ρ} (hs : I s) :
    I { s with conn.pollable := s.conn.pollable.disableWriteEvent } :=
  h.pollable s _ (by simp) (by simp) hs

theorem detach (h : Stable I) {s : State κ ρ} (hs : I s) :
    I { s with conn.pollable := s.conn.pollable.detachFromPoller } :=
  h.pollable s _ (by simp) (by simp) hs

theorem closeEvent (h : Stable I) :
    Keeps I E (closeEventCallback (κ := κ) (ρ := ρ)) :=
  fun _ hs => h.closed _ _ (h.detach hs)

include hE

theorem wp_abort (h : Stable I) {s : State κ ρ} {Q : Unit → State κ ρ → Prop} (hs : I s)
    (hQ : ∀ t, I t → Q () t) : wp abortFromEventLoop Q E s :=
  wp_abort_of hE fun _ _ => hQ _ (h.aborted s hs)

theorem wp_sendAsManyData (h : Stable I) {s : State κ ρ} {data : List UInt8} (hs : I s) :
    wp (sendAsManyData data) (fun _ => I) E s :=
  sendAsManyData_rule (fun ks _ _ => h.took s ks _ hs)
    (fun ks _ => h.wp_abort hE (h.took s ks _ hs) fun _ => id)

theorem send (h : Stable I) (data : List UInt8)
    (hw : Keeps I E writeComplete) :
    Keeps I E (send writeComplete data) := by
  intro s hs
  have hrecord := h.record s (.send data) hs
  simp only [TcpConnectSocketfd.send, TcpConnectSocketfd.record, wp_bind, wp_modify, wp_get,
    wp_ite, wp_pure]
  split
  · exact hrecord
  · rename_i hd
    split
    · exact wp_appendOutput (fun b hb => h.output _ b (fun hv => hv.of_append hb) hrecord)
        (hE _ _ (.inr (.inl rfl)))
    · apply sendAsManyData_rule
      · intro ks n _
        have htook := h.took _ ks (data.take n) hrecord
        simp only [wp_ite, wp_bind, enableWriteEvent]
        split
        · exact hw _ htook
        · refine wp_appendOutput (fun b hb => ?_) (hE _ _ (.inr (.inl rfl)))
          exact h.pollable _ _ (by simp) (fun hd' => absurd hd' hd)
            (h.output _ b (fun hv => hv.of_append hb) htook)
      · intro ks n
        refine h.wp_abort hE (h.took _ ks (data.take n) hrecord) fun t ht => ?_
        simp only [if_true]
        exact hw t ht

theorem flush (h : Stable I) {s : State κ ρ}
    (hw : Keeps I E writeComplete) (hs : I s) :
    wp (flushAndComplete writeComplete) (fun _ => I) E s := by
  have hflush : wp flushOutput (fun _ => I) E s := by
    have hforward : ∀ t n, I t →
        I { t with conn.outputBuffer := t.conn.outputBuffer.forwardReadPosition n } :=
      fun t n ht => h.output t _
        (fun hv => (MutableSizeTcpBuffer.forwardReadPosition_spec hv n).1) ht
    refine flushOutput_rule ?_ ?_ fun _ => hs
    · exact fun ks n _ => hforward _ n (h.took s ks _ hs)
    · exact fun ks n => h.wp_abort hE (h.took s ks _ hs) fun t ht => hforward t _ ht
  exact flushAndComplete_rule hflush (fun t ht => hw _ (h.disableWrite ht)) fun _ => id

/-- `shutdown_write` keeps what its last assignment keeps. -/
theorem shutdownWrite (h : Stable I)
    (hshut : ∀ s b, I s → I { s with
      conn.outputBuffer := b, conn.context := none, conn.isWriteEndShutdown := true })
    (hw : Keeps I E writeComplete) :
    Keeps I E (shutdownWrite writeComplete) := by
  intro s hs
  have hrecord := h.record s .shutdownWrite hs
  have hanswered := h.answered _ s.kernel.shutdowns.tail hrecord
  simp only [TcpConnectSocketfd.shutdownWrite, TcpConnectSocketfd.record, nextShutdown,
    disableWriteEvent, wp_bind, wp_modify, wp_modifyGet, wp_get, wp_ite, wp_pure]
  split
  · exact hrecord
  · split
    · exact h.wp_abort hE hanswered fun _ => id
    · split
      · apply wp_mono (h.closeEvent _ hanswered) _ (fun _ _ => id)
        intro _ t ht
        simp only [wp_bind, wp_modify]
        exact wp_mono (hw _ (h.disableWrite ht)) (fun _ u hu => hshut u _ hu) (fun _ _ => id)
      · exact wp_mono (hw _ (h.disableWrite hanswered)) (fun _ u hu => hshut u _ hu)
          (fun _ _ => id)

/-- A stable `I` is kept if `shutdown_write`, which is called in `A` only, keeps it. -/
theorem kept (h : Stable I)
    (hshut : ∀ writeComplete s, Keeps A E writeComplete →
      Keeps I E writeComplete → A s → I s →
      wp (TcpConnectSocketfd.shutdownWrite writeComplete) (fun _ => I)
        E s)
    (hclosure : ∀ s, I s → s.conn.writeCompleteCallback = some .shutdownWrite → A s)
    (hfinished : ∀ s, I s → s.conn.pollable.isReading = false → A s) :
    Kept A I E where
  halt _ _ _ he := hE _ _ (he.imp id .inl)
  count := h.count
  disableRead _ hs := h.pollable _ _ (by simp) (by simp) hs
  input := h.input
  send _ data hw := h.send hE data hw
  shutdownWrite := hshut
  flush _ _ hw hs _ _ := h.flush hE hw hs
  closure := hclosure
  finished := hfinished

/-- A stable `I` that allows the last assignment of `shutdown_write` is kept anywhere. -/
theorem kept_of_shut (h : Stable I)
    (hshut : ∀ s b, I s → I { s with
      conn.outputBuffer := b, conn.context := none, conn.isWriteEndShutdown := true }) :
    Kept I I E :=
  h.kept hE (fun _ s _ hw _ hs => h.shutdownWrite hE hshut hw s hs) (fun _ hs _ => hs)
    (fun _ hs _ => hs)

end Stable

/-- The output buffer is in order as long as the write end is open. -/
def OutputValid (s : State κ ρ) : Prop :=
  s.conn.isWriteEndShutdown = false → s.conn.outputBuffer.Valid

theorem kept_outputValid :
    Kept (κ := κ) (ρ := ρ) OutputValid OutputValid (fun e _ => ConnectionHalt e) := by
  have hstable : Stable (κ := κ) (ρ := ρ) OutputValid :=
    { count := fun _ hs => hs
      record := fun _ _ hs => hs
      took := fun _ _ _ hs => hs
      answered := fun _ _ hs => hs
      pollable := fun _ _ _ _ hs => hs
      input := fun _ _ hs => hs
      output := fun _ _ hb hs ho => hb (hs ho)
      closed := fun _ _ hs => hs
      aborted := fun _ _ ho => by cases ho }
  exact hstable.kept_of_shut (fun _ _ => id) fun _ _ _ ho => by cases ho

end XubinhServer.TcpConnectSocketfd

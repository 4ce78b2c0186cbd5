import XubinhServer.TcpConnectSocketfd.OutputOrder
import XubinhServer.TcpConnectSocketfd.ShutdownWrite

/-! What the write-complete callback finds when it is invoked. The methods are cut where they
enter user code, which may then call the connection as it likes before they go on. -/
namespace XubinhServer.TcpConnectSocketfd

open Halting EventPoller Transition

variable {κ ρ : Type}

/-- With no room for the registered callback on the call stack, a method stops where it
invokes it. -/
def invokeWriteComplete : Comp κ ρ Unit := throw .stackOverflow

/-- `_read_event_callback` behind the message callback. -/
def afterMessageCallback (writeComplete : Comp κ ρ Unit) : Comp κ ρ Unit := do
  if (← get).conn.pollable.isReading then pure ()
  else
    modify fun s => { s with conn.inputBuffer := s.conn.inputBuffer.release }
    if !(← get).conn.isWriteEndShutdown && !(← get).conn.pollable.isWriting then
      shutdownWrite writeComplete

/-- `_write_event_callback` behind the write-complete callback. -/
def afterWriteComplete (writeComplete : Comp κ ρ Unit) : Comp κ ρ Unit := do
  if !(← get).conn.pollable.isReading && !(← get).conn.pollable.isWriting then
    shutdownWrite writeComplete

theorem readEventCallback_eq (writeComplete messageCallback : Comp κ ρ Unit)
    (recvs : List RecvResult) :
    readEventCallback writeComplete recvs messageCallback = (do
      receiveAndProcess recvs messageCallback
      afterMessageCallback writeComplete) := rfl

theorem writeEventCallback_eq (writeComplete : Comp κ ρ Unit) :
    writeEventCallback writeComplete = (do
      if (← get).conn.pollable.isDetached then pure ()
      else if (← get).conn.isWriteEndShutdown then pure ()
      else if ← flushAndComplete writeComplete then afterWriteComplete writeComplete) := rfl

/-- A method that waits for user code to return. -/
inductive Frame where
  | send | shutdownWrite | writeEvent | readEvent
  deriving DecidableEq, Repr

/-- A connection and the methods that wait, the innermost first, with the states in which the
write-complete callback has been invoked. -/
structure Machine (κ ρ : Type) where
  state : State κ ρ
  frames : List Frame
  invocations : List (State κ ρ)

/-- The write-complete callback is counted and entered. -/
def Machine.enter (m : Machine κ ρ) (frame : Frame) (s : State κ ρ) : Machine κ ρ where
  state := { s with history.writeCompleteRuns := s.history.writeCompleteRuns + 1 }
  frames := frame :: m.frames
  invocations := m.invocations ++ [s]

/-- A method returns, or invokes the write-complete callback. -/
inductive Outcome (method : Comp κ ρ Unit) (frame : Frame) (m : Machine κ ρ) : Machine κ ρ → Prop
  | returns {t} (h : method m.state = .ok () t) : Outcome method frame m { m with state := t }
  | invokes {t} (h : method m.state = .error .stackOverflow t) :
    Outcome method frame m (m.enter frame t)

def frameOf : Call → Frame
  | .send _ => .send
  | .shutdownWrite => .shutdownWrite

/-- What happens next on a connection. User code runs where no event is being handled, in the
message callback and in the write-complete callback. -/
inductive Act where
  | call (call : Call)
  | abort
  | reset
  | input (consumed : Nat)
  | closeEvent
  | readEvent (recvs : List RecvResult)
  | writeEvent
  | leave (frame : Frame)

/-- The methods that wait go on where user code returns. -/
def leave : Frame → Comp κ ρ Unit
  | .send => pure ()
  | .shutdownWrite => modify afterCallback
  | .writeEvent => afterWriteComplete invokeWriteComplete
  | .readEvent => afterMessageCallback invokeWriteComplete

/-- One act, with the kernel's answers to it in the state. -/
inductive Turn : Act → Machine κ ρ → Machine κ ρ → Prop
  | call {m m'} (call : Call)
      (h : Outcome (runCall invokeWriteComplete call) (frameOf call) m m') : Turn (.call call) m m'
  | abort {m t} (h : abortFromEventLoop m.state = .ok () t) : Turn .abort m { m with state := t }
  | reset {m t} (hdetached : m.state.conn.pollable.isDetached = true)
      (h : resetConnection m.state = .ok () t) : Turn .reset m { m with state := t }
  | input {m} (consumed : Nat) : Turn (.input consumed) m { m with
      state.conn.inputBuffer := m.state.conn.inputBuffer.forwardReadPosition consumed }
  | closeEvent {m t} (hframes : m.frames = []) (h : closeEventCallback m.state = .ok () t) :
      Turn .closeEvent m { m with state := t }
  | readData {m n t} (recvs : List RecvResult) (hframes : m.frames = [])
      (h : receiveAllData recvs m.state = .ok n t) (hn : n ≠ 0) :
      Turn (.readEvent recvs) m { m with state := t, frames := [.readEvent] }
  | readNothing {m m' t} (recvs : List RecvResult) (hframes : m.frames = [])
      (h : receiveAllData recvs m.state = .ok 0 t)
      (hafter : Outcome (leave .readEvent) .shutdownWrite { m with state := t } m') :
      Turn (.readEvent recvs) m m'
  | writeEvent {m m'} (hframes : m.frames = [])
      (h : Outcome (writeEventCallback invokeWriteComplete) .writeEvent m m') :
      Turn .writeEvent m m'
  | leave {m m'} (frame : Frame) (frames : List Frame) (hframes : m.frames = frame :: frames)
      (h : Outcome (leave frame) .shutdownWrite { m with frames } m') : Turn (.leave frame) m m'

/-- All that has been passed to `send` has been accepted, unless the write end is shut. -/
def NothingOutstanding (s : State κ ρ) : Prop :=
  s.conn.isWriteEndShutdown = false → s.history.accepted = submitted s.history.calls

/-- The kernel does not find the peer gone, and nothing is outstanding where `shutdown_write` gets
past its first test: in a call of the user, and behind an event on a detached connection. -/
def Permitted (s : State κ ρ) : Act → Prop
  | .call (.send _) | .writeEvent => .error .EPIPE ∉ s.kernel.sends
  | .call .shutdownWrite => NothingOutstanding s
  | .readEvent recvs =>
    delivers recvs = false → s.conn.pollable.isDetached = true → NothingOutstanding s
  | .leave .readEvent | .leave .writeEvent =>
    s.conn.pollable.isDetached = true → NothingOutstanding s
  | .leave .send | .leave .shutdownWrite | .abort | .reset | .input _ | .closeEvent => True

/-- One act, whatever the kernel answers to it. -/
def Move (m m' : Machine κ ρ) : Prop :=
  ∃ kernel act, Turn act { m with state.kernel := kernel } m'

def PermittedMove (m m' : Machine κ ρ) : Prop :=
  ∃ kernel act, Permitted { m.state with kernel := kernel } act ∧
    Turn act { m with state.kernel := kernel } m'

def begin (timeStamp : Int) (context : Option κ) (callback : WriteCompleteCallback) :
    Machine κ ρ := ⟨started timeStamp context (some callback), [], []⟩

/-- What the write-complete callback is invoked for. -/
structure Complete (s : State κ ρ) : Prop where
  accepted : s.history.accepted = submitted s.history.calls
  aborted : s.conn.isAborted = false

/-- While the write end is open the output is in order; once it is shut, a connection that does not
wait for write events has nothing outstanding. -/
structure Truthful (s : State κ ρ) : Prop where
  aborted : s.conn.isAborted = true →
    s.conn.isWriteEndShutdown = true ∧ s.conn.pollable.isDetached = true
  opened : s.conn.isWriteEndShutdown = false → s.conn.pollable.isDetached = false → InOrder s
  shut : s.conn.isWriteEndShutdown = true → s.conn.pollable.isDetached = false →
    s.conn.pollable.isWriting = false → s.history.accepted = submitted s.history.calls

section Methods

variable {s : State κ ρ}

/-- The states in which a method returns or invokes the callback. -/
def AtInvocation (e : Halt) (s : State κ ρ) : Prop :=
  e = .stackOverflow → Complete s ∧ Truthful s

theorem sendLoop_conn {data : List UInt8} {sends : List SendResult} {sent : Nat}
    (hpipe : .error .EPIPE ∉ sends) :
    wp (sendLoop data sends sent) (fun _ t => t.conn = s.conn) (fun _ _ => False) s := by
  induction sends generalizing s sent with
  | nil => exact rfl
  | cons answer rest ih =>
    have hrest : .error .EPIPE ∉ rest := fun hmem => hpipe (List.mem_cons_of_mem _ hmem)
    simp only [sendLoop, wp_ite, wp_bind, wp_modify, wp_pure]
    split
    · cases answer with
      | accepted count => exact ih (s := s.took rest _) hrest
      | error errno =>
        cases errno with
        | EAGAIN => trivial
        | EWOULDBLOCK => trivial
        | EPIPE => exact absurd List.mem_cons_self hpipe
        | ENOTCONN => exact ih (s := { s with kernel.sends := rest }) hrest
        | other code => exact ih (s := { s with kernel.sends := rest }) hrest
    · trivial

/-- Where the peer is there, sending only takes a part of the data. -/
theorem sendAsManyData_rule_of_noPipe {data : List UInt8} {Q : Nat → State κ ρ → Prop}
    {E : Halt → State κ ρ → Prop} (hpipe : .error .EPIPE ∉ s.kernel.sends)
    (hok : ∀ ks n, n ≤ data.length → Q n (s.took ks (data.take n))) :
    wp (sendAsManyData data) Q E s := by
  have hconn : wp (sendAsManyData data) (fun _ t => t.conn = s.conn) (fun _ _ => False) s := by
    simp only [sendAsManyData, wp_ite, wp_bind, wp_get, wp_pure]
    split
    · trivial
    · exact sendLoop_conn hpipe
  have htook : wp (sendAsManyData data) (fun n t => Q n t ∨ t.conn ≠ s.conn)
      (fun _ _ => True) s := by
    refine sendAsManyData_rule (fun ks n hn => .inl (hok ks n hn)) fun ks n => ?_
    refine abortFromEventLoop_rule (fun haborted _ => .inr fun heq => ?_) (fun _ _ _ => trivial)
      (fun _ _ _ _ _ _ => trivial)
    have hflag : s.conn.isAborted = true := heq ▸ rfl
    exact absurd (haborted.symm.trans hflag) (by decide)
  refine wp_mono (wp_and hconn htook) (fun n t ht => ?_) fun _ _ he => he.1.elim
  exact ht.2.resolve_right fun hne => hne ht.1

theorem abort_truthful : wp abortFromEventLoop (fun _ => Truthful) AtInvocation s := by
  refine abortFromEventLoop_rule (fun _ _ => ⟨fun _ => ⟨rfl, ?_⟩, nofun, fun _ hd => ?_⟩)
    (fun _ _ _ => nofun) (fun _ _ _ _ _ _ => nofun)
  · exact PollableFileDescriptor.detachFromPoller_isDetached _
  · exact absurd hd (by simp [State.aborted])

theorem Truthful.of_detached (h : Truthful s) {t : State κ ρ}
    (haborted : t.conn.isAborted = true → s.conn.isAborted = true)
    (hshut : s.conn.isWriteEndShutdown = true → t.conn.isWriteEndShutdown = true)
    (hd : t.conn.pollable.isDetached = true) : Truthful t where
  aborted ha := ⟨hshut (h.aborted (haborted ha)).1, hd⟩
  opened _ hd' := absurd (hd.symm.trans hd') (by decide)
  shut _ hd' := absurd (hd.symm.trans hd') (by decide)

theorem Truthful.isAborted_of_attached (h : Truthful s)
    (hd : s.conn.pollable.isDetached = false) : s.conn.isAborted = false := by
  by_contra haborted
  have hdetached := (h.aborted (by simpa using haborted)).2
  exact absurd (hdetached.symm.trans hd) (by decide)

theorem Truthful.isAborted_of_open (h : Truthful s)
    (hopen : s.conn.isWriteEndShutdown = false) : s.conn.isAborted = false := by
  by_contra haborted
  have hshut := (h.aborted (by simpa using haborted)).1
  exact absurd (hshut.symm.trans hopen) (by decide)

/-- Nothing is outstanding on an attached connection that does not wait for write events. -/
theorem Truthful.settled (h : Truthful s) (hd : s.conn.pollable.isDetached = false)
    (hidle : s.conn.pollable.isWriting = false) :
    s.history.accepted = submitted s.history.calls := by
  cases hshut : s.conn.isWriteEndShutdown with
  | true => exact h.shut hshut hd hidle
  | false =>
    have horder := h.opened hshut hd
    rw [← horder.stream, horder.idle hidle, List.append_nil]

/-- What the kernel has not taken waits, and is not outstanding while the connection does not. -/
theorem send_truthful (data : List UInt8) (h : Truthful s)
    (hpipe : .error .EPIPE ∉ s.kernel.sends) :
    wp (send invokeWriteComplete data) (fun _ => Truthful) AtInvocation s := by
  simp only [send, record, invokeWriteComplete, wp_bind, wp_modify, wp_get, wp_ite, wp_pure]
  split
  · rename_i hd
    exact h.of_detached id id hd
  · rename_i hattached
    have hd : s.conn.pollable.isDetached = false := by simpa using hattached
    have haborted := h.isAborted_of_attached hd
    split
    · rename_i hwriting
      refine wp_appendOutput (fun b hb => ⟨h.aborted, fun hopen _ => ?_, fun _ _ hidle => ?_⟩)
        (fun heq => by cases heq)
      · obtain ⟨hvalid, hstream⟩ := (h.opened hopen hd).queued (n := 0) (.inl rfl) hb
        refine ⟨hvalid, by simpa using hstream, fun hidle => ?_⟩
        exact absurd (hwriting.symm.trans hidle) (by decide)
      · exact absurd (hwriting.symm.trans hidle) (by decide)
    · rename_i hnot
      have hidle : s.conn.pollable.isWriting = false := by simpa using hnot
      have hsettled := h.settled hd hidle
      have hall : s.history.accepted ++ data = submitted (s.history.calls ++ [.send data]) := by
        rw [submitted_append, hsettled]
      refine sendAsManyData_rule_of_noPipe hpipe fun ks n hn => ?_
      simp only [wp_ite, wp_bind, wp_throw, enableWriteEvent]
      split
      · rename_i hlength
        have htake : data.take n = data := List.take_of_length_le (by omega)
        intro _
        refine ⟨⟨?_, haborted⟩, h.aborted, fun hopen _ => ?_, fun _ _ _ => ?_⟩
        · simp only [State.took, htake, hall]
        · have horder := h.opened hopen hd
          refine ⟨horder.valid, ?_, fun _ => horder.idle hidle⟩
          simp only [State.took, htake, horder.idle hidle, List.append_nil, hall]
        · simp only [State.took, htake, hall]
      · refine wp_appendOutput (fun b hb => ?_) (fun heq => by cases heq)
        refine ⟨fun ha => absurd (haborted.symm.trans ha) (by decide), fun hopen _ => ?_,
          fun _ _ hidle' => ?_⟩
        · have horder := h.opened hopen hd
          obtain ⟨hvalid, hstream⟩ := horder.queued (.inr (horder.idle hidle)) hb
          exact ⟨hvalid, hstream, fun hidle' => by simp at hidle'⟩
        · simp at hidle'

/-- A change that leaves the output, and does not attach the connection. -/
theorem Truthful.of_same (h : Truthful s) {t : State κ ρ}
    (haborted : t.conn.isAborted = s.conn.isAborted)
    (hshut : t.conn.isWriteEndShutdown = s.conn.isWriteEndShutdown)
    (hd : s.conn.pollable.isDetached = true → t.conn.pollable.isDetached = true)
    (hw : t.conn.pollable.isDetached = false →
      t.conn.pollable.isWriting = s.conn.pollable.isWriting)
    (hb : t.conn.outputBuffer = s.conn.outputBuffer)
    (haccepted : t.history.accepted = s.history.accepted)
    (hcalls : submitted t.history.calls = submitted s.history.calls) : Truthful t := by
  have hattached : t.conn.pollable.isDetached = false → s.conn.pollable.isDetached = false := by
    intro ht
    by_contra hs
    exact absurd ((hd (by simpa using hs)).symm.trans ht) (by decide)
  refine ⟨fun ha => ?_, fun ho ht => ?_, fun hs ht hidle => ?_⟩
  · obtain ⟨hs, hsd⟩ := h.aborted (haborted ▸ ha)
    exact ⟨hshut ▸ hs, hd hsd⟩
  · obtain ⟨hvalid, hstream, hnone⟩ := h.opened (hshut ▸ ho) (hattached ht)
    rw [← hw ht, ← hb] at hnone
    exact ⟨hb ▸ hvalid, by rw [haccepted, hb, hstream, hcalls], hnone⟩
  · rw [haccepted, hcalls]
    exact h.shut (hshut ▸ hs) (hattached ht) (hw ht ▸ hidle)

/-- Where everything has been accepted, the callback may be invoked with write events disabled. -/
theorem Truthful.invoked (h : Truthful s) (hopen : s.conn.isWriteEndShutdown = false)
    (haccepted : s.history.accepted = submitted s.history.calls) :
    Complete s ∧
      Truthful { s with conn.pollable := s.conn.pollable.disableWriteEvent } := by
  refine ⟨⟨haccepted, h.isAborted_of_open hopen⟩, ?_, fun _ hd => ?_, fun hshut => ?_⟩
  · intro ha
    exact absurd (ha.symm.trans (h.isAborted_of_open hopen)) (by decide)
  · obtain ⟨hvalid, hstream, _⟩ := h.opened hopen (by simpa using hd)
    refine ⟨hvalid, hstream, fun _ => ?_⟩
    rw [haccepted] at hstream
    exact List.append_cancel_left (hstream.trans (List.append_nil _).symm)
  · exact absurd (hshut.symm.trans hopen) (by decide)

theorem shutdownWrite_truthful (h : Truthful s) (hsettled : NothingOutstanding s) :
    wp (shutdownWrite invokeWriteComplete) (fun _ => Truthful) AtInvocation s := by
  have hcalls : submitted (s.history.calls ++ [.shutdownWrite]) = submitted s.history.calls := by
    simp [submitted, Call.data]
  simp only [shutdownWrite, record, nextShutdown, closeEventCallback, detachFromPoller,
    runCloseCallback, disableWriteEvent, invokeWriteComplete, wp_bind, wp_modify, wp_modifyGet,
    wp_get, wp_ite, wp_pure, wp_throw]
  split
  · exact h.of_same rfl rfl id (fun _ => rfl) rfl rfl hcalls
  · rename_i hnot
    have hopen : s.conn.isWriteEndShutdown = false := by simpa using hnot
    have haccepted := (hsettled hopen).trans hcalls.symm
    split
    · exact abort_truthful
    · split
      · intro _
        have hdetached : Truthful { s with
            conn.pollable := s.conn.pollable.detachFromPoller
            kernel.shutdowns := s.kernel.shutdowns.tail
            history.calls := s.history.calls ++ [.shutdownWrite]
            history.closeCallbackRuns :=
              s.history.closeCallbackRuns + if s.conn.hasCloseCallback then 1 else 0 } :=
          h.of_detached id id (PollableFileDescriptor.detachFromPoller_isDetached _)
        obtain ⟨hcomplete, htruthful⟩ := hdetached.invoked hopen haccepted
        exact ⟨⟨haccepted, hcomplete.aborted⟩, htruthful⟩
      · intro _
        have hanswered : Truthful { s with
            kernel.shutdowns := s.kernel.shutdowns.tail
            history.calls := s.history.calls ++ [.shutdownWrite] } :=
          h.of_same rfl rfl id (fun _ => rfl) rfl rfl hcalls
        obtain ⟨hcomplete, htruthful⟩ := hanswered.invoked hopen haccepted
        exact ⟨⟨haccepted, hcomplete.aborted⟩, htruthful⟩

/-- The output that a flush on an open connection leaves. -/
structure Flushed (done : Bool) (s : State κ ρ) : Prop where
  truthful : Truthful s
  opened : s.conn.isWriteEndShutdown = false
  attached : s.conn.pollable.isDetached = false
  empty : done = true → s.conn.outputBuffer.unread = []

theorem flushOutput_truthful (h : Truthful s) (hpipe : .error .EPIPE ∉ s.kernel.sends)
    (hd : s.conn.pollable.isDetached = false) (hopen : s.conn.isWriteEndShutdown = false) :
    wp flushOutput Flushed AtInvocation s := by
  simp only [flushOutput, wp_bind, wp_get, wp_ite, wp_pure]
  split
  · refine sendAsManyData_rule_of_noPipe hpipe fun ks n hn => ?_
    obtain ⟨hvalid, hstream, hnone⟩ := h.opened hopen hd
    obtain ⟨hvalid', hunread⟩ := MutableSizeTcpBuffer.forwardReadPosition_spec hvalid n
    refine ⟨⟨h.aborted, fun _ _ => ⟨hvalid', ?_, fun hidle => ?_⟩, fun hshut => ?_⟩, hopen, hd,
      fun hdone => ?_⟩
    · simp only [State.took]
      rw [hunread, ← hstream, List.append_assoc, List.take_append_drop]
    · simp only [State.took]
      rw [hunread, hnone hidle, List.drop_nil]
    · exact absurd (hshut.symm.trans hopen) (by decide)
    · simp only [State.took]
      rw [hunread, List.drop_eq_nil_iff]
      exact Nat.le_of_eq (of_decide_eq_true hdone).symm
  · rename_i hempty
    exact ⟨h, hopen, hd, fun _ => List.length_eq_zero_iff.mp (Nat.eq_zero_of_not_pos hempty)⟩

/-- A write event leaves what the kernel has not taken. -/
theorem writeEvent_truthful (h : Truthful s) (hpipe : .error .EPIPE ∉ s.kernel.sends) :
    wp (writeEventCallback invokeWriteComplete) (fun _ => Truthful) AtInvocation s := by
  rw [writeEventCallback_eq]
  simp only [wp_bind, wp_get, wp_ite, wp_pure]
  split
  · exact h
  · rename_i hattached
    split
    · exact h
    · rename_i hnot
      have hflush := flushOutput_truthful h hpipe (by simpa using hattached) (by simpa using hnot)
      refine flushAndComplete_rule hflush (fun t ht => ?_) fun t ht => ht.truthful
      intro _
      have hstream := (ht.truthful.opened ht.opened ht.attached).stream
      rw [ht.empty rfl, List.append_nil] at hstream
      obtain ⟨hcomplete, htruthful⟩ := ht.truthful.invoked ht.opened hstream
      exact ⟨⟨hcomplete.accepted, hcomplete.aborted⟩, htruthful⟩

/-- Behind user code `shutdown_write` is called on a connection that is detached, or does not
wait for write events. -/
theorem nothingOutstanding_of_idle (h : Truthful s) (hidle : s.conn.pollable.isWriting = false)
    (hdetached : s.conn.pollable.isDetached = true → NothingOutstanding s) :
    NothingOutstanding s := by
  cases hd : s.conn.pollable.isDetached with
  | true => exact hdetached hd
  | false => exact fun _ => h.settled hd hidle

theorem afterWriteComplete_truthful (h : Truthful s)
    (hdetached : s.conn.pollable.isDetached = true → NothingOutstanding s) :
    wp (afterWriteComplete invokeWriteComplete) (fun _ => Truthful) AtInvocation s := by
  simp only [afterWriteComplete, wp_bind, wp_get, wp_ite, wp_pure]
  split
  · rename_i hstopped
    simp only [Bool.and_eq_true, Bool.not_eq_true'] at hstopped
    exact shutdownWrite_truthful h (nothingOutstanding_of_idle h hstopped.2 hdetached)
  · exact h

theorem afterMessageCallback_truthful (h : Truthful s)
    (hdetached : s.conn.pollable.isDetached = true → NothingOutstanding s) :
    wp (afterMessageCallback invokeWriteComplete) (fun _ => Truthful) AtInvocation s := by
  have hinput : Truthful { s with conn.inputBuffer := s.conn.inputBuffer.release } :=
    h.of_same rfl rfl id (fun _ => rfl) rfl rfl rfl
  simp only [afterMessageCallback, wp_bind, wp_get, wp_ite, wp_modify, wp_pure]
  split
  · exact h
  · split
    · rename_i hstopped
      simp only [Bool.and_eq_true, Bool.not_eq_true'] at hstopped
      exact shutdownWrite_truthful hinput (nothingOutstanding_of_idle hinput hstopped.2 hdetached)
    · exact hinput

/-- `shutdown_write` drops what user code has left in the output buffer, and the connection then
waits for write events forever. -/
theorem afterCallback_truthful (h : Truthful s) : Truthful (afterCallback s) where
  aborted ha := ⟨rfl, (h.aborted ha).2⟩
  opened := nofun
  shut _ hd hidle := h.settled hd hidle

theorem leave_truthful (h : Truthful s) (frame : Frame)
    (hpermitted : Permitted s (.leave frame)) :
    wp (leave frame) (fun _ => Truthful) AtInvocation s := by
  cases frame with
  | send => exact h
  | shutdownWrite => exact afterCallback_truthful h
  | writeEvent => exact afterWriteComplete_truthful h hpermitted
  | readEvent => exact afterMessageCallback_truthful h hpermitted

theorem call_truthful (h : Truthful s) (call : Call) (hpermitted : Permitted s (.call call)) :
    wp (runCall invokeWriteComplete call) (fun _ => Truthful) AtInvocation s := by
  cases call with
  | send data => exact send_truthful data h hpermitted
  | shutdownWrite => exact shutdownWrite_truthful h hpermitted

/-- Receiving leaves the output alone. -/
theorem receiveLoop_truthful (h : Truthful s) (recvs : List RecvResult) (total : Nat) :
    wp (receiveLoop recvs total) (fun _ t => Truthful t ∧
        t.conn.pollable.isDetached = s.conn.pollable.isDetached ∧
        (NothingOutstanding s → NothingOutstanding t))
      AtInvocation s := by
  let I (t : State κ ρ) : Prop := Truthful t ∧
    t.conn.pollable.isDetached = s.conn.pollable.isDetached ∧
      (NothingOutstanding s → NothingOutstanding t)
  have hinput : ∀ t b, I t → I { t with conn.inputBuffer := b } := fun t b ht =>
    ⟨ht.1.of_same rfl rfl id (fun _ => rfl) rfl rfl rfl, ht.2.1, ht.2.2⟩
  have hread : ∀ t, I t → I { t with conn.pollable := t.conn.pollable.disableReadEvent } :=
    fun t ht => ⟨ht.1.of_same rfl rfl (by simp) (by simp) rfl rfl rfl, by simpa using ht.2.1,
      ht.2.2⟩
  exact receiveLoop_keeps hinput hread (fun _ _ => nofun) recvs total s ⟨h, rfl, id⟩

/-- More than nothing is returned where something has been received. -/
theorem receiveLoop_total (recvs : List RecvResult) (total : Nat) :
    wp (receiveLoop recvs total) (fun n _ => total ≤ n ∧ (delivers recvs = true → total < n))
      (fun _ _ => True) s := by
  induction recvs generalizing total s with
  | nil => exact ⟨Nat.le_refl _, fun hdelivers => by cases hdelivers⟩
  | cons answer rest ih =>
    unfold receiveLoop
    cases answer with
    | read data =>
      simp only [wp_ite, wp_bind, disableReadEvent, wp_modify, wp_pure]
      split
      · rename_i hdata
        refine wp_mono (wp_true _ _) (fun _ t _ => ?_) (fun _ _ => id)
        refine wp_mono (ih (s := t) (total + data.length)) (fun n _ hn => ?_) (fun _ _ => id)
        exact ⟨by omega, fun _ => by omega⟩
      · rename_i hdata
        exact ⟨Nat.le_refl _, fun hdelivers => absurd (of_decide_eq_true hdelivers) hdata⟩
    | error errno =>
      cases errno with
      | EAGAIN => exact ⟨Nat.le_refl _, fun hdelivers => by cases hdelivers⟩
      | EWOULDBLOCK => exact ⟨Nat.le_refl _, fun hdelivers => by cases hdelivers⟩
      | EPIPE => exact ih total
      | ENOTCONN => exact ih total
      | other code => exact ih total

theorem resetConnection_truthful (h : Truthful s) (hd : s.conn.pollable.isDetached = true) :
    wp resetConnection (fun _ => Truthful) AtInvocation s := by
  simp only [resetConnection, runCloseCallback, nextReset, wp_bind, wp_get, wp_ite, wp_throw,
    wp_modify, wp_modifyGet]
  split
  · intro h
    cases h
  · cases s.kernel.resets.headD .success with
    | success => exact h.of_detached id (fun _ => rfl) hd
    | setsockoptFailed =>
      intro h
      cases h
    | closeFailed =>
      intro h
      cases h

theorem closeEventCallback_truthful (h : Truthful s) :
    wp closeEventCallback (fun _ => Truthful) AtInvocation s :=
  h.of_detached id id (PollableFileDescriptor.detachFromPoller_isDetached _)

end Methods

section Turns

variable {m m' : Machine κ ρ}

/-- The invocations so far were not premature. -/
structure Punctual (m : Machine κ ρ) : Prop where
  state : Truthful m.state
  invocations : ∀ s ∈ m.invocations, Complete s

theorem Punctual.outcome {method : Comp κ ρ Unit} {frame : Frame} (h : Punctual m)
    (hmethod : wp method (fun _ => Truthful) AtInvocation m.state)
    (houtcome : Outcome method frame m m') : Punctual m' := by
  cases houtcome with
  | returns hok => exact ⟨wp_of_ok hmethod hok, h.invocations⟩
  | invokes herror =>
    obtain ⟨hcomplete, htruthful⟩ := wp_of_error hmethod herror rfl
    refine ⟨htruthful.of_same rfl rfl id (fun _ => rfl) rfl rfl rfl, fun s hs => ?_⟩
    cases List.mem_append.mp hs with
    | inl hold => exact h.invocations s hold
    | inr hnew => exact List.mem_singleton.mp hnew ▸ hcomplete

theorem Punctual.turn {act : Act} (h : Punctual m) (hpermitted : Permitted m.state act)
    (hturn : Turn act m m') : Punctual m' := by
  cases hturn with
  | call call houtcome => exact h.outcome (call_truthful h.state call hpermitted) houtcome
  | abort hok => exact ⟨wp_of_ok abort_truthful hok, h.invocations⟩
  | reset hd hok => exact ⟨wp_of_ok (resetConnection_truthful h.state hd) hok, h.invocations⟩
  | input consumed =>
    exact ⟨h.state.of_same rfl rfl id (fun _ => rfl) rfl rfl rfl, h.invocations⟩
  | closeEvent _ hok => exact ⟨wp_of_ok (closeEventCallback_truthful h.state) hok, h.invocations⟩
  | readData recvs _ hok _ =>
    exact ⟨(wp_of_ok (receiveLoop_truthful h.state recvs 0) hok).1, h.invocations⟩
  | readNothing recvs _ hok hafter =>
    obtain ⟨htruthful, hd, hsettled⟩ := wp_of_ok (receiveLoop_truthful h.state recvs 0) hok
    have hnothing : delivers recvs = false := by
      by_contra hdelivers
      have htotal := (wp_of_ok (receiveLoop_total recvs 0) hok).2 (by simpa using hdelivers)
      omega
    have hreceived : Punctual { m with state := _ } := ⟨htruthful, h.invocations⟩
    exact hreceived.outcome (afterMessageCallback_truthful htruthful
      fun hdetached => hsettled (hpermitted hnothing (hd ▸ hdetached))) hafter
  | writeEvent _ houtcome => exact h.outcome (writeEvent_truthful h.state hpermitted) houtcome
  | leave frame frames _ houtcome =>
    have hleft : Punctual { m with frames } := ⟨h.state, h.invocations⟩
    exact hleft.outcome (leave_truthful h.state frame hpermitted) houtcome

theorem punctual_begin (timeStamp : Int) (context : Option κ) (callback : WriteCompleteCallback) :
    Punctual (begin (ρ := ρ) timeStamp context callback) where
  state := {
    aborted := fun haborted => (Bool.false_ne_true haborted).elim
    opened := fun _ _ => ⟨MutableSizeTcpBuffer.valid_new, rfl, fun _ => rfl⟩
    shut := fun hshut => (Bool.false_ne_true hshut).elim }
  invocations _ hs := absurd hs List.not_mem_nil

end Turns

/-- In a run in which the kernel does not find the peer gone, and nothing is outstanding where
`shutdown_write` gets past its first test, the callback is invoked for what it says. -/
theorem complete_of_reaches {timeStamp : Int} {context : Option κ}
    {callback : WriteCompleteCallback} {m : Machine κ ρ}
    (h : Reaches PermittedMove (begin timeStamp context callback) m) :
    ∀ s ∈ m.invocations, Complete s := by
  have hpunctual : Punctual m := h.invariant (punctual_begin timeStamp context callback)
    fun a b ha hmove => by
      obtain ⟨kernel, act, hpermitted, hturn⟩ := hmove
      have hanswered : Punctual { a with state.kernel := kernel } :=
        ⟨ha.state.of_same rfl rfl id (fun _ => rfl) rfl rfl rfl, ha.invocations⟩
      exact hanswered.turn hpermitted hturn
  exact hpunctual.invocations

/-- One of two bytes is taken at once, the other by a write event. -/
theorem complete_of_reaches_partial : ∃ s : State Unit Unit, s.history.calls =
    [.send (bytes "ab")] ∧ Complete s := by
  have hsend : PermittedMove (begin 0 (some ()) .user : Machine Unit Unit) _ :=
    ⟨⟨[.accepted 1, .error .EAGAIN], [], []⟩, .call (.send (bytes "ab")), by simp [Permitted],
      .call _ (.returns rfl)⟩
  have hreaches := (Relation.ReflTransGen.single hsend).tail
    ⟨⟨[], [], []⟩, .writeEvent, by simp [Permitted], .writeEvent rfl (.invokes rfl)⟩
  exact ⟨_, rfl, complete_of_reaches hreaches _ List.mem_cons_self⟩

/-- The peer is gone, and the callback is invoked behind the abort. -/
theorem not_complete_of_brokenPipe : ¬∀ m : Machine Unit Unit,
    Reaches Move (begin 0 (some ()) .user) m → ∀ s ∈ m.invocations, Complete s := by
  intro hcomplete
  have hsend : Move (begin 0 (some ()) .user : Machine Unit Unit) _ :=
    ⟨⟨[.error .EPIPE], [], []⟩, .call (.send (bytes "a")), .call _ (.invokes rfl)⟩
  have haborted := (hcomplete _ (.single hsend) _ List.mem_cons_self).aborted
  exact absurd haborted (by decide)

/-- Two of three bytes wait when the user calls `shutdown_write`. -/
theorem not_complete_of_shutdownWrite : ¬∀ m : Machine Unit Unit,
    Reaches Move (begin 0 (some ()) .user) m → ∀ s ∈ m.invocations, Complete s := by
  intro hcomplete
  have hsend : Move (begin 0 (some ()) .user : Machine Unit Unit) _ :=
    ⟨⟨[.accepted 1, .error .EAGAIN], [], []⟩, .call (.send (bytes "abc")), .call _ (.returns rfl)⟩
  have hreaches := (Relation.ReflTransGen.single hsend).tail
    ⟨⟨[], [], []⟩, .call .shutdownWrite, .call _ (.invokes rfl)⟩
  have haccepted := (hcomplete _ hreaches _ List.mem_cons_self).accepted
  exact absurd haccepted (by decide)

end XubinhServer.TcpConnectSocketfd

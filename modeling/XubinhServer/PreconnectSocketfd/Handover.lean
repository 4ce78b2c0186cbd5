import XubinhServer.EventPoller
import XubinhServer.PreconnectSocketfd.Cancel

/-! The fd that a connecting socket hands over. The constructor puts its socket into non-blocking
mode, but not the ones that replace it with each retry. -/
namespace XubinhServer.PreconnectSocketfd

open Function (update)

open Transition

/-- Whether an open file has the flag `O_NONBLOCK`. -/
inductive FileMode where
  | blocking
  | nonBlocking
  deriving DecidableEq, Repr

/-- What the kernel answers in one step, with the number of the socket that it creates. -/
structure SocketAnswers extends ConnectAnswers where
  newSocketfd : Nat

/-- An fd at the moment at which it is handed to the new connection callback. -/
structure Handover where
  /-- `none` if it is not open -/
  mode : Option FileMode
  /-- what the poller listens for on it -/
  watched : Option UInt32
  numberOfRetries : Int
  /-- the socket behind it is the one that was created for it -/
  held : Bool
  deriving DecidableEq

/-- Open, in non-blocking mode, and not registered with the poller. -/
def Handover.Ready (handover : Handover) : Prop :=
  handover.mode = some .nonBlocking ∧ handover.watched = none

instance (handover : Handover) : Decidable handover.Ready :=
  inferInstanceAs (Decidable (handover.mode = some .nonBlocking ∧ handover.watched = none))

/-- A socket that is not connected yet, with its fd, in the process that it is part of. -/
structure Hosted where
  state : State
  fd : Nat
  /-- the socket behind `fd` has been neither closed nor handed over -/
  held : Bool
  /-- what is open in the process -/
  files : Nat → Option FileMode
  poller : EventPoller
  handovers : List Handover

/-- The kernel watches what is open. -/
def Opened (files : Nat → Option FileMode) (poller : EventPoller) : Prop :=
  ∀ fd, (poller.watched fd).isSome = true → (files fd).isSome = true

section Opened

variable {files : Nat → Option FileMode} {poller : EventPoller}

theorem Opened.create (h : Opened files poller) (fd : Nat) (mode : FileMode) :
    Opened (update files fd (some mode)) poller := by
  intro a hsome
  by_cases ha : a = fd
  · rw [ha, Function.update_self]
    rfl
  · rw [Function.update_of_ne ha]
    exact h a hsome

theorem Opened.mono {poller' : EventPoller} (h : Opened files poller)
    (hless : ∀ fd, (poller'.watched fd).isSome = true → (poller.watched fd).isSome = true) :
    Opened files poller' :=
  fun fd hsome => h fd (hless fd hsome)

theorem Opened.close (h : Opened files poller) (fd : Nat) :
    Opened (update files fd none) (poller.close fd) := by
  intro a hsome
  have hclosed : (poller.close fd).watched = update poller.watched fd none := rfl
  rw [hclosed] at hsome
  by_cases ha : a = fd
  · rw [ha, Function.update_self] at hsome
    cases hsome
  · rw [Function.update_of_ne ha] at hsome ⊢
    exact h a hsome

end Opened

namespace Hosted

def isOpen (s : Hosted) : Bool := (s.files s.fd).isSome

def createSocketfd (a : SocketAnswers) (files : Nat → Option FileMode) :
    Except Halt (Nat → Option FileMode) :=
  if a.socketFails then throw (.logFatal "failed to create socketfd")
  else pure (update files a.newSocketfd (some .blocking))

def setFdAsNonblocking (files : Nat → Option FileMode) (fd : Nat) :
    Except Halt (Nat → Option FileMode) :=
  if (files fd).isNone then throw (.logFatal "failed to fcntl with F_GETFL flag")
  else pure (update files fd (some .nonBlocking))

/-- The constructor, which also constructs the pollable file descriptor. -/
def construct (a : SocketAnswers) (conn : PreconnectSocketfd) (files : Nat → Option FileMode)
    (poller : EventPoller) : Except Halt Hosted := do
  let files ← createSocketfd a files
  let files ← setFdAsNonblocking files a.newSocketfd
  pure ⟨.initial conn, a.newSocketfd, true, files, poller, []⟩

def enableWriteEvent (s : Hosted) : Except Halt Hosted := do
  let pollable := s.state.conn.pollable
  if pollable.isWriting then pure s
  else if !s.isOpen then throw (.logFatal ("epoll_ctl failed, fd: " ++ toString s.fd))
  else
    let poller ← s.poller.registerEventForFd s.fd pollable.enableWriteEvent.events
    pure { s with state.conn.pollable := pollable.enableWriteEvent, poller }

def detachFromPoller (s : Hosted) : Except Halt Hosted := do
  if s.state.conn.pollable.isDetached then pure s
  else
    let poller ← s.poller.detachFd s.fd
    pure { s with state := s.state.detachFromPoller, poller }

def closeFd (a : SocketAnswers) (s : Hosted) : Except Halt Hosted :=
  if !s.isOpen || a.closeFails then throw (.logFatal "failed to close fd")
  else pure { s with
    held := false
    files := update s.files s.fd none
    poller := s.poller.close s.fd }

/-- The new socket is taken as it is. -/
def resetTo (a : SocketAnswers) (s : Hosted) (newFd : Nat) : Except Halt Hosted := do
  let s ← s.detachFromPoller
  let s ← s.closeFd a
  pure { s with fd := newFd, held := true }

def detachAndClose (a : SocketAnswers) (s : Hosted) : Except Halt Hosted := do
  let s ← { s with state.conn.timerIdentifier := none }.detachFromPoller
  s.closeFd a

def cancel (a : SocketAnswers) (s : Hosted) : Except Halt Hosted :=
  match s.state.conn.timerIdentifier with
  | none => pure { s with state := s.state.record .cancelled }
  | some identifier => do
    let timers := s.state.timers.filter (·.identifier ≠ identifier)
    let s ← { s with state.timers := timers }.detachAndClose a
    pure { s with state := s.state.runConnectFailCallback.record .cancelled }

/-- The timer that starts the next attempt. -/
def runRetryTimer (state : State) : State :=
  let state := state.runAfterTimeInterval
    (min MAX_RETRY_TIME_INTERVAL state.conn.currentRetryTimeInterval)
  { state with
    conn.currentRetryTimeInterval := TimeInterval.mul state.conn.currentRetryTimeInterval 2 }

def scheduleRetry (a : SocketAnswers) (s : Hosted) : Except Halt Hosted := do
  if s.state.conn.numberOfRetries ≥ s.state.conn.maxNumberOfRetries then
    let s ← s.detachAndClose a
    pure { s with state := s.state.runConnectFailCallback }
  else
    let s := { s with state.conn.numberOfRetries := s.state.conn.numberOfRetries + 1 }
    let files ← createSocketfd a s.files
    let s ← { s with files }.resetTo a a.newSocketfd
    pure { s with state := runRetryTimer s.state }

/-- The new connection callback takes the fd over. -/
def handOver (s : Hosted) : Hosted :=
  { s with
    state := s.state.record .newConnection
    held := false
    handovers := s.handovers ++
      [⟨s.files s.fd, s.poller.watched s.fd, s.state.conn.numberOfRetries, s.held⟩] }

def connected (s : Hosted) : Except Halt Hosted := do
  let s ← s.detachFromPoller
  pure s.handOver

/-- The kernel knows nothing about an fd that is not open. -/
def connectToServer (a : SocketAnswers) (s : Hosted) : ConnectResult :=
  if s.isOpen then a.connect else .error .EBADF

def getSocketfdErrno (a : SocketAnswers) (s : Hosted) : Option Nat :=
  if s.isOpen then a.soError else none

def writeEventCallback (a : SocketAnswers) (s : Hosted) : Except Halt Hosted :=
  match s.getSocketfdErrno a with
  | none => throw (.logFatal "getsockopt failed")
  | some savedErrno => if savedErrno = 0 then s.connected else s.scheduleRetry a

def tryOnce (a : SocketAnswers) (s : Hosted) : Except Halt Hosted :=
  let s := { s with state := s.state.record .connect }
  match s.connectToServer a with
  | .success => s.connected
  | .error .EINPROGRESS => s.enableWriteEvent
  | .error .EADDRINUSE | .error .EADDRNOTAVAIL | .error .EAGAIN | .error .ECONNREFUSED
  | .error .ENETUNREACH => s.scheduleRetry a
  | .error .EALREADY | .error .EISCONN => pure { s with state := s.state.runConnectFailCallback }
  | .error .EACCES | .error .EPERM | .error .EAFNOSUPPORT | .error .EBADF | .error .EFAULT
  | .error .ENOTSOCK | .error .EPROTOTYPE =>
    pure { s with state := s.state.runConnectFailCallback }
  | .error (.other _) => throw (.logFatal "unknown error")

def start (a : SocketAnswers) (s : Hosted) : Except Halt Hosted :=
  if !s.state.conn.hasNewConnectionCallback then
    throw (.logFatal "missing new connection callback")
  else { s with state.started := true }.tryOnce a

/-- A step of the socket, as in `PreconnectSocketfd.Step`, or of anything else in the process,
which leaves alone the socket that is held. What the kernel creates has not been open. -/
inductive Step (allowed : State → Prop) : Hosted → Hosted → Prop
  | start {s t : Hosted} (a : SocketAnswers) (hfresh : s.files a.newSocketfd = none)
      (hidle : s.state.started = false) (hok : s.start a = .ok t) : Step allowed s t
  | cancel {s t : Hosted} (a : SocketAnswers) (hallowed : allowed s.state)
      (hok : s.cancel a = .ok t) : Step allowed s t
  | poll {s : Hosted} (hwriting : s.state.conn.pollable.isWriting = true) :
      Step allowed s { s with state.polled := true }
  | dispatch {s t : Hosted} (a : SocketAnswers) (hfresh : s.files a.newSocketfd = none)
      (hpolled : s.state.polled = true)
      (hok : { s with state.polled := false }.writeEventCallback a = .ok t) : Step allowed s t
  | expire {s : Hosted} (due : RetryTimer → Bool) :
      Step allowed s { s with state := s.state.expire due }
  | fire {s t : Hosted} (a : SocketAnswers) (hfresh : s.files a.newSocketfd = none)
      {timer : RetryTimer} {rest : List RetryTimer} (hexpired : s.state.expired = timer :: rest)
      (hok : { s with state.expired := rest }.tryOnce a = .ok t) : Step allowed s t
  | others {s : Hosted} (files : Nat → Option FileMode) (poller : EventPoller)
      (hopened : Opened files poller)
      (hheld : s.held = true → files s.fd = s.files s.fd ∧
        poller.watched s.fd = s.poller.watched s.fd ∧
        poller.fdsThatAreListeningOn s.fd = s.poller.fdsThatAreListeningOn s.fd) :
      Step allowed s { s with files, poller }

/-- The mode that a socket is in behind so many retries. -/
def modeAfter (numberOfRetries : Int) : FileMode :=
  if numberOfRetries = 0 then .nonBlocking else .blocking

/-- What is recorded of an fd: while it is held its mode follows the retries, and before the first
retry it is held. -/
structure Accounted (handover : Handover) : Prop where
  held : handover.held = true →
    handover.mode = some (modeAfter handover.numberOfRetries) ∧ handover.watched = none
  first : handover.numberOfRetries = 0 → handover.held = true

/-- The fd of a socket, in every state: what the kernel has for it as long as it is held, and
what has been handed over. -/
structure Kept (s : Hosted) : Prop where
  opened : Opened s.files s.poller
  counted : 0 ≤ s.state.conn.numberOfRetries
  mode : s.held = true → s.files s.fd = some (modeAfter s.state.conn.numberOfRetries)
  attached : s.held = true → (s.poller.watched s.fd).isSome = true →
    s.state.conn.pollable.isDetached = false ∧ s.poller.fdsThatAreListeningOn s.fd = true
  accounted : ∀ handover ∈ s.handovers, Accounted handover

/-- No timer has been created. -/
structure Untimed (state : State) : Prop where
  timers : state.timers = []
  expired : state.expired = []
  timerIdentifier : state.conn.timerIdentifier = none

/-- Before the first retry a socket that is no longer held has nothing pending. -/
structure Untried (s : Hosted) : Prop where
  untimed : Untimed s.state
  idle : s.state.started = false →
    s.state.conn.pollable.isWriting = false ∧ s.state.polled = false
  pending : s.held = true ∨
    s.state.started = true ∧ s.state.conn.pollable.isWriting = false ∧ s.state.polled = false

structure Sane (s : Hosted) : Prop where
  kept : Kept s
  untried : s.state.conn.numberOfRetries = 0 → Untried s

/-- The first attempt begins or ends, on the socket of the constructor. -/
structure First (s : Hosted) : Prop where
  untimed : Untimed s.state
  held : s.held = true
  started : s.state.started = true
  polled : s.state.polled = false

/-- An attempt begins or ends. -/
structure Attempting (s : Hosted) : Prop where
  kept : Kept s
  first : s.state.conn.numberOfRetries = 0 → First s

theorem Accounted.ready_iff {handover : Handover} (h : Accounted handover)
    (hheld : handover.held = true) : handover.Ready ↔ handover.numberOfRetries = 0 := by
  obtain ⟨hmode, hwatched⟩ := h.held hheld
  rw [Handover.Ready, hmode, modeAfter]
  constructor
  · intro hready
    by_contra hretried
    rw [if_neg hretried] at hready
    cases hready.1
  · intro hzero
    rw [if_pos hzero]
    exact ⟨rfl, hwatched⟩

variable {s t : Hosted} {a : SocketAnswers} {allowed : State → Prop}

theorem detachFromPoller_ok (hok : s.detachFromPoller = .ok t) :
    ∃ poller, t = { s with state := s.state.detachFromPoller, poller } ∧
      (∀ fd, (poller.watched fd).isSome = true → (s.poller.watched fd).isSome = true) ∧
      (((s.poller.watched s.fd).isSome = true → s.state.conn.pollable.isDetached = false ∧
        s.poller.fdsThatAreListeningOn s.fd = true) → poller.watched s.fd = none) := by
  rw [detachFromPoller] at hok
  cases hdetached : s.state.conn.pollable.isDetached with
  | true =>
    rw [hdetached, if_pos rfl] at hok
    cases hok
    have hsame : s.state.detachFromPoller = s.state := by
      rw [State.detachFromPoller, PollableFileDescriptor.detachFromPoller, if_pos hdetached]
    refine ⟨s.poller, by rw [hsame], fun _ hsome => hsome, fun hattached => ?_⟩
    rw [← Option.not_isSome_iff_eq_none]
    intro hsome
    exact absurd (hattached hsome).1 (by decide)
  | false =>
    rw [hdetached, if_neg (by decide)] at hok
    obtain ⟨poller, hpoller, ht⟩ := bind_ok hok
    cases ht
    obtain ⟨hless, hgone⟩ := EventPoller.detachFd_ok hpoller
    refine ⟨poller, rfl, hless, fun hattached => ?_⟩
    cases hwatched : s.poller.watched s.fd with
    | some events =>
      rw [hwatched] at hattached
      exact hgone (hattached rfl).2
    | none =>
      rw [← Option.not_isSome_iff_eq_none]
      intro hsome
      exact absurd (hless s.fd hsome) (by simp [hwatched])

theorem closeFd_ok (hok : s.closeFd a = .ok t) : t = { s with
    held := false
    files := update s.files s.fd none
    poller := s.poller.close s.fd } := by
  rw [closeFd] at hok
  split at hok
  · cases hok
  · cases hok
    rfl

theorem createSocketfd_ok {files files' : Nat → Option FileMode}
    (hok : createSocketfd a files = .ok files') :
    files' = update files a.newSocketfd (some .blocking) := by
  rw [createSocketfd] at hok
  split at hok
  · cases hok
  · cases hok
    rfl

theorem enableWriteEvent_ok (hok : s.enableWriteEvent = .ok t) :
    ∃ poller, t = { s with
        state.conn.pollable := s.state.conn.pollable.enableWriteEvent, poller } ∧
      (poller = s.poller ∨ s.isOpen = true ∧ (∃ events,
        poller.watched = update s.poller.watched s.fd (some events)) ∧
        poller.fdsThatAreListeningOn s.fd = true) := by
  rw [enableWriteEvent] at hok
  cases hwriting : s.state.conn.pollable.isWriting with
  | true =>
    simp only [hwriting, if_true] at hok
    cases hok
    refine ⟨s.poller, ?_, .inl rfl⟩
    rw [PollableFileDescriptor.enableWriteEvent, if_pos hwriting]
  | false =>
    cases hopen : s.isOpen with
    | false =>
      simp only [hwriting, hopen] at hok
      cases hok
    | true =>
      simp only [hwriting, hopen] at hok
      obtain ⟨poller, hpoller, ht⟩ := bind_ok hok
      cases ht
      obtain ⟨hwatched, hlistening⟩ := EventPoller.registerEventForFd_ok hpoller
      exact ⟨poller, rfl, .inr ⟨rfl, ⟨_, hwatched⟩, hlistening⟩⟩

theorem detachAndClose_ok (hok : s.detachAndClose a = .ok t) :
    ∃ poller, t = { s with
        state := { s.state with conn.timerIdentifier := none }.detachFromPoller
        held := false
        files := update s.files s.fd none
        poller } ∧
      (Opened s.files s.poller → Opened (update s.files s.fd none) poller) := by
  obtain ⟨u, hu, ht⟩ := bind_ok hok
  obtain ⟨poller, rfl, hless, _⟩ := detachFromPoller_ok hu
  exact ⟨poller.close s.fd, closeFd_ok ht, fun hopened => (hopened.mono hless).close s.fd⟩

theorem resetTo_ok {newFd : Nat} (hok : s.resetTo a newFd = .ok t) :
    ∃ poller : EventPoller, t = { s with
        state := s.state.detachFromPoller
        fd := newFd
        held := true
        files := update s.files s.fd none
        poller := poller.close s.fd } ∧
      (∀ fd, (poller.watched fd).isSome = true → (s.poller.watched fd).isSome = true) := by
  obtain ⟨u, hu, hrest⟩ := bind_ok hok
  obtain ⟨v, hv, ht⟩ := bind_ok hrest
  obtain ⟨poller, rfl, hless, _⟩ := detachFromPoller_ok hu
  cases closeFd_ok hv
  cases ht
  exact ⟨poller, rfl, hless⟩

/-- A socket that is given up or handed over is no longer kept, whatever happens to its fd. -/
theorem Kept.release (h : Kept s) (hheld : t.held = false) (hopened : Opened t.files t.poller)
    (hcounted : t.state.conn.numberOfRetries = s.state.conn.numberOfRetries)
    (haccounted : ∀ handover ∈ t.handovers, Accounted handover) : Kept t where
  opened := hopened
  counted := by
    rw [hcounted]
    exact h.counted
  mode := fun hnot => absurd hnot (by simp [hheld])
  attached := fun hnot => absurd hnot (by simp [hheld])
  accounted := haccounted

/-- The fd depends on the counter and on the pollable file descriptor alone. -/
theorem Kept.withState (h : Kept s) {state : State}
    (hretries : state.conn.numberOfRetries = s.state.conn.numberOfRetries)
    (hpollable : state.conn.pollable = s.state.conn.pollable) : Kept { s with state } where
  opened := h.opened
  counted := by
    rw [hretries]
    exact h.counted
  mode := by
    rw [hretries]
    exact h.mode
  attached := by
    rw [hpollable]
    exact h.attached
  accounted := h.accounted

theorem First.untried (h : First s) (huntimed : Untimed t.state)
    (hstarted : t.state.started = s.state.started)
    (hpending : t.held = s.held ∨
      t.state.conn.pollable.isWriting = false ∧ t.state.polled = s.state.polled) : Untried t where
  untimed := huntimed
  idle hidle := absurd (hstarted.symm.trans hidle) (by simp [h.started])
  pending := by
    cases hpending with
    | inl hheld => exact .inl (hheld.trans h.held)
    | inr hquiet =>
      exact .inr ⟨hstarted.trans h.started, hquiet.1, hquiet.2.trans h.polled⟩

theorem Untimed.congr {state state' : State} (h : Untimed state)
    (htimers : state'.timers = state.timers)
    (hexpired : state'.expired = state.expired)
    (hidentifier : state'.conn.timerIdentifier = state.conn.timerIdentifier) : Untimed state' :=
  ⟨htimers.trans h.timers, hexpired.trans h.expired, hidentifier.trans h.timerIdentifier⟩

theorem Sane.record (h : Sane s) (event : Event) :
    Sane { s with state := s.state.record event } where
  kept := h.kept.withState rfl rfl
  untried hzero :=
    have huntried := h.untried hzero
    ⟨huntried.untimed.congr rfl rfl rfl, huntried.idle, huntried.pending⟩

theorem Sane.report (h : Sane s) : Sane { s with state := s.state.runConnectFailCallback } := by
  rw [State.runConnectFailCallback]
  split
  · exact h.record .connectFail
  · exact h

theorem Attempting.record (h : Attempting s) (event : Event) :
    Attempting { s with state := s.state.record event } where
  kept := h.kept.withState rfl rfl
  first hzero :=
    have hfirst := h.first hzero
    ⟨hfirst.untimed.congr rfl rfl rfl, hfirst.held, hfirst.started, hfirst.polled⟩

theorem Attempting.sane (h : Attempting s) : Sane s :=
  ⟨h.kept, fun hzero => (h.first hzero).untried (h.first hzero).untimed rfl (.inl rfl)⟩

theorem Attempting.connected (h : Attempting s) (hok : s.connected = .ok t) : Sane t := by
  obtain ⟨u, hu, ht⟩ := bind_ok hok
  obtain ⟨poller, rfl, hless, hgone⟩ := detachFromPoller_ok hu
  cases ht
  refine ⟨h.kept.release rfl (h.kept.opened.mono hless) rfl ?_, fun hzero => ?_⟩
  · intro handover hmem
    cases List.mem_append.mp hmem with
    | inl hbefore => exact h.kept.accounted handover hbefore
    | inr hnow =>
      rw [List.mem_singleton.mp hnow]
      exact ⟨fun hheld => ⟨h.kept.mode hheld, hgone (h.kept.attached hheld)⟩,
        fun hzero => (h.first hzero).held⟩
  · have hfirst := h.first hzero
    exact hfirst.untried (hfirst.untimed.congr rfl rfl rfl) rfl
      (.inr ⟨PollableFileDescriptor.detachFromPoller_isWriting _, rfl⟩)

/-- Behind the last retry nothing is held, and nothing is pending. -/
theorem Attempting.detachAndClose (h : Attempting s) (hok : s.detachAndClose a = .ok t) :
    Sane t := by
  obtain ⟨poller, rfl, hopened⟩ := detachAndClose_ok hok
  refine ⟨h.kept.release rfl (hopened h.kept.opened) rfl h.kept.accounted, fun hzero => ?_⟩
  have hfirst := h.first hzero
  exact hfirst.untried ⟨hfirst.untimed.timers, hfirst.untimed.expired, rfl⟩ rfl
    (.inr ⟨PollableFileDescriptor.detachFromPoller_isWriting _, rfl⟩)

/-- A retry takes a socket that blocks. -/
theorem Attempting.retry (h : Attempting s) (hopen : s.isOpen = true)
    (hfresh : s.files a.newSocketfd = none) {files : Nat → Option FileMode}
    (hfiles : createSocketfd a s.files = .ok files)
    (hok : { s with
      state.conn.numberOfRetries := s.state.conn.numberOfRetries + 1
      files }.resetTo a a.newSocketfd = .ok t) :
    Sane { t with state := runRetryTimer t.state } := by
  cases createSocketfd_ok hfiles
  obtain ⟨poller, rfl, hless⟩ := resetTo_ok hok
  have hother : a.newSocketfd ≠ s.fd := by
    intro hsame
    rw [isOpen, ← hsame, hfresh] at hopen
    cases hopen
  have hopened : Opened s.files poller := h.kept.opened.mono hless
  have hretried : s.state.conn.numberOfRetries + 1 ≠ 0 := by
    have hcounted := h.kept.counted
    omega
  refine ⟨⟨(hopened.create a.newSocketfd .blocking).close s.fd, ?_, fun _ => ?_,
    fun _ hsome => ?_, h.kept.accounted⟩, fun hzero => absurd hzero hretried⟩
  · exact Int.le_add_one h.kept.counted
  · have hmode : modeAfter (s.state.conn.numberOfRetries + 1) = .blocking := if_neg hretried
    simp [hother, runRetryTimer, State.runAfterTimeInterval, State.detachFromPoller, hmode]
  · -- nothing watches what has just been created
    have hclosed : (poller.close s.fd).watched a.newSocketfd = poller.watched a.newSocketfd := by
      simp [EventPoller.close, hother]
    rw [hclosed] at hsome
    have hexisted : (s.files a.newSocketfd).isSome = true := hopened a.newSocketfd hsome
    rw [hfresh] at hexisted
    cases hexisted

theorem Attempting.scheduleRetry (h : Attempting s) (hopen : s.isOpen = true)
    (hfresh : s.files a.newSocketfd = none) (hok : s.scheduleRetry a = .ok t) : Sane t := by
  rw [Hosted.scheduleRetry] at hok
  split at hok
  · obtain ⟨u, hu, ht⟩ := bind_ok hok
    cases ht
    exact (h.detachAndClose hu).report
  · obtain ⟨files, hfiles, hrest⟩ := bind_ok hok
    obtain ⟨u, hu, ht⟩ := bind_ok hrest
    cases ht
    exact h.retry hopen hfresh hfiles hu

theorem Attempting.writeEventCallback (h : Attempting s) (hfresh : s.files a.newSocketfd = none)
    (hok : s.writeEventCallback a = .ok t) : Sane t := by
  rw [Hosted.writeEventCallback, getSocketfdErrno] at hok
  cases hopen : s.isOpen with
  | false =>
    rw [hopen, if_neg (by decide)] at hok
    cases hok
  | true =>
    rw [hopen, if_pos rfl] at hok
    split at hok
    · cases hok
    · split at hok
      · exact h.connected hok
      · exact h.scheduleRetry hopen hfresh hok

theorem Attempting.enableWriteEvent (h : Attempting s) (hok : s.enableWriteEvent = .ok t) :
    Sane t := by
  obtain ⟨poller, rfl, hpoller⟩ := enableWriteEvent_ok hok
  have huntried : s.state.conn.numberOfRetries = 0 → Untried { s with
      state.conn.pollable := s.state.conn.pollable.enableWriteEvent, poller } := by
    intro hzero
    have hfirst := h.first hzero
    exact hfirst.untried (hfirst.untimed.congr rfl rfl rfl) rfl (.inl rfl)
  have hattached : s.state.conn.pollable.enableWriteEvent.isDetached = false :=
    PollableFileDescriptor.enableWriteEvent_isDetached _
  cases hpoller with
  | inl hsame =>
    cases hsame
    exact ⟨⟨h.kept.opened, h.kept.counted, h.kept.mode,
      fun hheld hsome => ⟨hattached, (h.kept.attached hheld hsome).2⟩, h.kept.accounted⟩, huntried⟩
  | inr hregistered =>
    obtain ⟨hopen, ⟨events, hwatched⟩, hlistening⟩ := hregistered
    refine ⟨⟨fun fd hsome => ?_, h.kept.counted, h.kept.mode, fun _ _ => ⟨hattached, hlistening⟩,
      h.kept.accounted⟩, huntried⟩
    by_cases hfd : fd = s.fd
    · rw [hfd]
      exact hopen
    · refine h.kept.opened fd ?_
      simpa [hwatched, hfd] using hsome

/-- What an attempt comes to. -/
inductive Tried (a : SocketAnswers) (s t : Hosted) : Prop
  | connected (hok : { s with state := s.state.record .connect }.connected = .ok t) : Tried a s t
  | waits (hok : { s with state := s.state.record .connect }.enableWriteEvent = .ok t) :
      Tried a s t
  | retried (hopen : s.isOpen = true)
      (hok : { s with state := s.state.record .connect }.scheduleRetry a = .ok t) : Tried a s t
  | failed (ht : t = { s with state := (s.state.record .connect).runConnectFailCallback }) :
      Tried a s t

theorem tried_of_tryOnce (hok : s.tryOnce a = .ok t) : Tried a s t := by
  rw [Hosted.tryOnce, connectToServer] at hok
  cases hopen : s.isOpen with
  | false =>
    simp only [isOpen] at hok hopen
    simp only [hopen, Bool.false_eq_true, if_false] at hok
    cases hok
    exact .failed rfl
  | true =>
    have hretry := Tried.retried (a := a) (t := t) hopen
    simp only [isOpen] at hok hopen
    simp only [hopen, if_true] at hok
    cases hanswer : a.connect with
    | success =>
      rw [hanswer] at hok
      exact .connected hok
    | error errno =>
      rw [hanswer] at hok
      cases errno with
      | EINPROGRESS => exact .waits hok
      | EADDRINUSE => exact hretry hok
      | EADDRNOTAVAIL => exact hretry hok
      | EAGAIN => exact hretry hok
      | ECONNREFUSED => exact hretry hok
      | ENETUNREACH => exact hretry hok
      | other code => cases hok
      | EALREADY => cases hok; exact .failed rfl
      | EISCONN => cases hok; exact .failed rfl
      | EACCES => cases hok; exact .failed rfl
      | EPERM => cases hok; exact .failed rfl
      | EAFNOSUPPORT => cases hok; exact .failed rfl
      | EBADF => cases hok; exact .failed rfl
      | EFAULT => cases hok; exact .failed rfl
      | ENOTSOCK => cases hok; exact .failed rfl
      | EPROTOTYPE => cases hok; exact .failed rfl

theorem Attempting.tryOnce (h : Attempting s) (hfresh : s.files a.newSocketfd = none)
    (hok : s.tryOnce a = .ok t) : Sane t := by
  have hbegun := h.record .connect
  cases tried_of_tryOnce hok with
  | connected hok => exact hbegun.connected hok
  | waits hok => exact hbegun.enableWriteEvent hok
  | retried hopen hok => exact hbegun.scheduleRetry hopen hfresh hok
  | failed ht =>
    rw [ht]
    exact hbegun.sane.report

/-- A cancellation finds a timer identifier only behind a retry. -/
theorem Sane.cancel (h : Sane s) (hok : s.cancel a = .ok t) : Sane t := by
  rw [Hosted.cancel] at hok
  cases hidentifier : s.state.conn.timerIdentifier with
  | none =>
    rw [hidentifier] at hok
    cases hok
    exact h.record .cancelled
  | some identifier =>
    rw [hidentifier] at hok
    obtain ⟨u, hu, ht⟩ := bind_ok hok
    cases ht
    have hretried : s.state.conn.numberOfRetries ≠ 0 := by
      intro hzero
      have hnone := (h.untried hzero).untimed.timerIdentifier
      rw [hidentifier] at hnone
      cases hnone
    have hattempting : Attempting { s with
        state.timers := s.state.timers.filter (·.identifier ≠ identifier) } :=
      ⟨h.kept.withState rfl rfl, fun hzero => absurd hzero hretried⟩
    exact (hattempting.detachAndClose hu).report.record .cancelled

theorem Sane.start (h : Sane s) (hfresh : s.files a.newSocketfd = none)
    (hidle : s.state.started = false) (hok : s.start a = .ok t) : Sane t := by
  rw [Hosted.start] at hok
  split at hok
  · cases hok
  · have hattempting : Attempting { s with state.started := true } := by
      refine ⟨h.kept.withState rfl rfl, fun hzero => ?_⟩
      have huntried := h.untried hzero
      have hheld : s.held = true := by
        cases huntried.pending with
        | inl hheld => exact hheld
        | inr hover => exact absurd hover.1 (by simp [hidle])
      exact ⟨huntried.untimed.congr rfl rfl rfl, hheld, rfl, (huntried.idle hidle).2⟩
    exact hattempting.tryOnce hfresh hok

theorem Sane.dispatch (h : Sane s) (hfresh : s.files a.newSocketfd = none)
    (hpolled : s.state.polled = true)
    (hok : { s with state.polled := false }.writeEventCallback a = .ok t) : Sane t := by
  have hattempting : Attempting { s with state.polled := false } := by
    refine ⟨h.kept.withState rfl rfl, fun hzero => ?_⟩
    have huntried := h.untried hzero
    have hheld : s.held = true := by
      cases huntried.pending with
      | inl hheld => exact hheld
      | inr hover => exact absurd hover.2.2 (by simp [hpolled])
    have hstarted : s.state.started = true := by
      by_contra hnot
      exact absurd (huntried.idle (by simpa using hnot)).2 (by simp [hpolled])
    exact ⟨huntried.untimed.congr rfl rfl rfl, hheld, hstarted, rfl⟩
  exact hattempting.writeEventCallback hfresh hok

theorem Sane.poll (h : Sane s) (hwriting : s.state.conn.pollable.isWriting = true) :
    Sane { s with state.polled := true } := by
  refine ⟨h.kept.withState rfl rfl, fun hzero => ?_⟩
  have huntried := h.untried hzero
  refine ⟨huntried.untimed.congr rfl rfl rfl, fun hidle => ?_, .inl ?_⟩
  · exact absurd (huntried.idle hidle).1 (by simp [hwriting])
  · cases huntried.pending with
    | inl hheld => exact hheld
    | inr hover => exact absurd hover.2.1 (by simp [hwriting])

theorem Sane.expire (h : Sane s) (due : RetryTimer → Bool) :
    Sane { s with state := s.state.expire due } := by
  refine ⟨h.kept.withState rfl rfl, fun hzero => ?_⟩
  have huntried := h.untried hzero
  have huntimed : Untimed (s.state.expire due) := by
    refine ⟨?_, ?_, huntried.untimed.timerIdentifier⟩
    · simp [State.expire, huntried.untimed.timers]
    · simp [State.expire, huntried.untimed.timers, huntried.untimed.expired]
  exact ⟨huntimed, huntried.idle, huntried.pending⟩

theorem Sane.fire (h : Sane s) (hfresh : s.files a.newSocketfd = none) {timer : RetryTimer}
    {rest : List RetryTimer} (hexpired : s.state.expired = timer :: rest)
    (hok : { s with state.expired := rest }.tryOnce a = .ok t) : Sane t := by
  have hattempting : Attempting { s with state.expired := rest } := by
    refine ⟨h.kept.withState rfl rfl, fun hzero => ?_⟩
    have hnone := (h.untried hzero).untimed.expired
    rw [hexpired] at hnone
    cases hnone
  exact hattempting.tryOnce hfresh hok

theorem Sane.others (h : Sane s) {files : Nat → Option FileMode} {poller : EventPoller}
    (hopened : Opened files poller)
    (hheld : s.held = true → files s.fd = s.files s.fd ∧
      poller.watched s.fd = s.poller.watched s.fd ∧
      poller.fdsThatAreListeningOn s.fd = s.poller.fdsThatAreListeningOn s.fd) :
    Sane { s with files, poller } := by
  refine ⟨⟨hopened, h.kept.counted, fun hown => ?_, fun hown hsome => ?_, h.kept.accounted⟩,
    fun hzero => ?_⟩
  · exact (hheld hown).1.trans (h.kept.mode hown)
  · obtain ⟨_, hwatched, hlistening⟩ := hheld hown
    obtain ⟨hdetached, hattached⟩ := h.kept.attached hown (hwatched ▸ hsome)
    exact ⟨hdetached, hlistening.trans hattached⟩
  · have huntried := h.untried hzero
    exact ⟨huntried.untimed, huntried.idle, huntried.pending⟩

theorem sane_step (h : Sane s) (hstep : Step allowed s t) : Sane t := by
  cases hstep with
  | start a hfresh hidle hok => exact h.start hfresh hidle hok
  | cancel a _ hok => exact h.cancel hok
  | poll hwriting => exact h.poll hwriting
  | dispatch a hfresh hpolled hok => exact h.dispatch hfresh hpolled hok
  | expire due => exact h.expire due
  | fire a hfresh hexpired hok => exact h.fire hfresh hexpired hok
  | others files poller hopened hheld => exact h.others hopened hheld

section Run

variable {files : Nat → Option FileMode} {poller : EventPoller} {maxNumberOfRetries : Int}
  {hasNewConnectionCallback hasConnectFailCallback : Bool}

theorem sane_construct (hopened : Opened files poller) (hfresh : files a.newSocketfd = none)
    (hok : construct a (new maxNumberOfRetries hasNewConnectionCallback hasConnectFailCallback)
      files poller = .ok s) : Sane s := by
  obtain ⟨created, hcreated, hrest⟩ := bind_ok hok
  obtain ⟨configured, hconfigured, hs⟩ := bind_ok hrest
  cases createSocketfd_ok hcreated
  rw [setFdAsNonblocking, Function.update_self, if_neg (by decide)] at hconfigured
  cases hconfigured
  cases hs
  refine ⟨⟨(hopened.create _ _).create _ _, Int.le_refl 0, fun _ => Function.update_self _ _ _,
    fun _ hsome => ?_, fun _ hnone => by cases hnone⟩,
    fun _ => ⟨⟨rfl, rfl, rfl⟩, fun _ => ⟨rfl, rfl⟩, .inl rfl⟩⟩
  have hexisted : (files a.newSocketfd).isSome = true := hopened _ hsome
  rw [hfresh] at hexisted
  cases hexisted

/-- In every run, whenever it is cancelled and whatever goes on around it: an fd that is handed
over before the first retry is held, and one that is held is ready exactly before the first
retry. -/
theorem ready_iff_of_reaches {s₀ : Hosted} (hopened : Opened files poller)
    (hfresh : files a.newSocketfd = none)
    (hnew : construct a (new maxNumberOfRetries hasNewConnectionCallback hasConnectFailCallback)
      files poller = .ok s₀)
    (hreach : Reaches (Step allowed) s₀ s) : ∀ handover ∈ s.handovers,
      (handover.numberOfRetries = 0 → handover.held = true) ∧
        (handover.held = true → (handover.Ready ↔ handover.numberOfRetries = 0)) := by
  intro handover hmem
  have hsane : Sane s := hreach.invariant (sane_construct hopened hfresh hnew)
    fun _ _ => sane_step
  have haccounted := hsane.kept.accounted handover hmem
  exact ⟨haccounted.first, haccounted.ready_iff⟩

end Run

/-- A process in which nothing is open. -/
def nothingOpen : Nat → Option FileMode := fun _ => none

theorem opened_nothing : Opened nothingOpen .new := by
  intro fd hsome
  cases hsome

/-- An attempt waits at the poller. -/
def waiting (newSocketfd : Nat) : SocketAnswers :=
  ⟨⟨.error .EINPROGRESS, some 0, false, false⟩, newSocketfd⟩

/-- A socket that has just been constructed there. -/
def constructed : Hosted where
  state := .initial (new 3 true true)
  fd := 3
  held := true
  files := update (update nothingOpen 3 (some .blocking)) 3 (some .nonBlocking)
  poller := .new
  handovers := []

theorem construct_constructed :
    construct (waiting 3) (new 3 true true) nothingOpen .new = .ok constructed := rfl

/-- The first attempt succeeds. -/
theorem ready_iff_of_reaches_first : ∃ s : Hosted, s.handovers ≠ [] ∧
    ∀ handover ∈ s.handovers, (handover.numberOfRetries = 0 → handover.held = true) ∧
      (handover.held = true → (handover.Ready ↔ handover.numberOfRetries = 0)) := by
  have hrun : Reaches (Step fun _ => True) constructed _ :=
    Relation.ReflTransGen.refl
      |>.tail (.start (waiting 4) rfl rfl rfl) |>.tail (.poll rfl)
      |>.tail (.dispatch (waiting 4) rfl rfl rfl)
  exact ⟨_, by decide,
    ready_iff_of_reaches opened_nothing rfl construct_constructed hrun⟩

/-- The first attempt is refused when its write event comes, and the second one succeeds, on a
socket that blocks. -/
theorem not_ready_of_retry : ¬∀ (files : Nat → Option FileMode) (poller : EventPoller)
    (a : SocketAnswers) (maxNumberOfRetries : Int)
    (hasNewConnectionCallback hasConnectFailCallback : Bool) (s₀ s : Hosted),
    Opened files poller → files a.newSocketfd = none →
    construct a (new maxNumberOfRetries hasNewConnectionCallback hasConnectFailCallback)
      files poller = .ok s₀ →
    Reaches (Step fun _ => True) s₀ s → ∀ handover ∈ s.handovers, handover.Ready := by
  intro hready
  let refused : SocketAnswers := ⟨⟨.success, some 111, false, false⟩, 4⟩
  let connects : SocketAnswers := ⟨⟨.success, some 0, false, false⟩, 5⟩
  have hrun : Reaches (Step fun _ => True) constructed _ :=
    Relation.ReflTransGen.refl
      |>.tail (.start (waiting 4) rfl rfl rfl) |>.tail (.poll rfl)
      |>.tail (.dispatch refused rfl rfl rfl) |>.tail (.expire fun _ => true)
      |>.tail (.fire connects rfl rfl rfl)
  have hblocking := hready nothingOpen .new (waiting 3) 3 true true constructed _ opened_nothing rfl
    construct_constructed hrun ⟨some .blocking, none, 1, true⟩ (List.mem_singleton_self _)
  exact absurd hblocking (by decide)

end Hosted

end XubinhServer.PreconnectSocketfd

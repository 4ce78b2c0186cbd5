import Mathlib.Algebra.Group.Nat.Defs
import XubinhServer.PollableFileDescriptor
import XubinhServer.Lib.Transition

/-! A socket that is not connected yet, in the loop thread that owns it. An attempt may succeed or
fail at once, wait at the poller, or wait for a retry timer. -/
namespace XubinhServer

/-- The `errno` values of `::connect` that the code tells apart. -/
inductive ConnectErrno where
  | EINPROGRESS
  | EADDRINUSE | EADDRNOTAVAIL | EAGAIN | ECONNREFUSED | ENETUNREACH
  | EALREADY | EISCONN
  | EACCES | EPERM | EAFNOSUPPORT | EBADF | EFAULT | ENOTSOCK | EPROTOTYPE
  | other (code : Nat)
  deriving DecidableEq, Repr

inductive ConnectResult where
  | success
  | error (errno : ConnectErrno)
  deriving DecidableEq, Repr

/-- What the kernel answers in one step. `soError` is the value of `SO_ERROR`, unless
`::getsockopt` fails. -/
structure ConnectAnswers where
  connect : ConnectResult
  soError : Option Nat
  socketFails : Bool
  closeFails : Bool
  deriving DecidableEq, Repr

/-- `TimeInterval::operator*=` on 64 bits. -/
def TimeInterval.mul (nanoseconds multiplier : Int) : Int :=
  (nanoseconds * multiplier).bmod (2 ^ 64)

structure RetryTimer where
  identifier : Nat
  timeInterval : Int
  deriving DecidableEq, Repr

structure PreconnectSocketfd where
  maxNumberOfRetries : Int
  numberOfRetries : Int
  currentRetryTimeInterval : Int
  timerIdentifier : Option Nat
  hasNewConnectionCallback : Bool
  hasConnectFailCallback : Bool
  pollable : PollableFileDescriptor
  deriving DecidableEq

namespace PreconnectSocketfd

/-- Half a second, in nanoseconds. -/
def INITIAL_RETRY_TIME_INTERVAL : Int := 1000000000 / 2

def MAX_RETRY_TIME_INTERVAL : Int := 30 * 1000000000

/-- A call of `::connect`, of one of the two callbacks, and the return from `cancel`. -/
inductive Event where
  | connect
  | newConnection
  | connectFail
  | cancelled
  deriving DecidableEq, Repr

def Event.isCallback : Event → Bool
  | newConnection => true
  | connectFail => true
  | _ => false

/-- The socket, its timers in the loop's container, those that the expiry pass going on has moved
out of it, and whether a write event has been polled and waits to be dispatched. -/
structure State where
  conn : PreconnectSocketfd
  started : Bool
  timers : List RetryTimer
  expired : List RetryTimer
  polled : Bool
  created : Nat
  history : List Event
  deriving DecidableEq

def new (maxNumberOfRetries : Int) (hasNewConnectionCallback hasConnectFailCallback : Bool) :
    PreconnectSocketfd where
  maxNumberOfRetries := maxNumberOfRetries
  numberOfRetries := 0
  currentRetryTimeInterval := INITIAL_RETRY_TIME_INTERVAL
  timerIdentifier := none
  hasNewConnectionCallback := hasNewConnectionCallback
  hasConnectFailCallback := hasConnectFailCallback
  pollable := .new true

namespace State

def initial (conn : PreconnectSocketfd) : State := ⟨conn, false, [], [], false, 0, []⟩

def record (s : State) (event : Event) : State := { s with history := s.history ++ [event] }

def runConnectFailCallback (s : State) : State :=
  if s.conn.hasConnectFailCallback then s.record .connectFail else s

def detachFromPoller (s : State) : State :=
  { s with conn.pollable := s.conn.pollable.detachFromPoller }

/-- Detach and close, and forget the timer. -/
def detachAndClose (a : ConnectAnswers) (s : State) : Except Halt State :=
  if a.closeFails then throw (.logFatal "failed to close fd")
  else pure ({ s with conn.timerIdentifier := none }.detachFromPoller)

def cancel (a : ConnectAnswers) (s : State) : Except Halt State :=
  match s.conn.timerIdentifier with
  | none => pure (s.record .cancelled)
  | some identifier => do
    -- only the container is searched
    let s := { s with timers := s.timers.filter (·.identifier ≠ identifier) }
    let s ← s.detachAndClose a
    pure (s.runConnectFailCallback.record .cancelled)

/-- `_pollable_file_descriptor.reset_to` with a new socket. -/
def resetToNewSocketfd (a : ConnectAnswers) (s : State) : Except Halt State :=
  if a.socketFails then throw (.logFatal "failed to create socketfd")
  else if a.closeFails then throw (.logFatal "failed to close fd")
  else pure s.detachFromPoller

def runAfterTimeInterval (s : State) (timeInterval : Int) : State :=
  { s with
    conn.timerIdentifier := some s.created
    timers := ⟨s.created, timeInterval⟩ :: s.timers
    created := s.created + 1 }

def scheduleRetry (a : ConnectAnswers) (s : State) : Except Halt State := do
  if s.conn.numberOfRetries ≥ s.conn.maxNumberOfRetries then
    let s ← s.detachAndClose a
    pure s.runConnectFailCallback
  else
    let s := { s with conn.numberOfRetries := s.conn.numberOfRetries + 1 }
    let s ← s.resetToNewSocketfd a
    let s := s.runAfterTimeInterval (min MAX_RETRY_TIME_INTERVAL s.conn.currentRetryTimeInterval)
    pure { s with
      conn.currentRetryTimeInterval := TimeInterval.mul s.conn.currentRetryTimeInterval 2 }

def connected (s : State) : State := s.detachFromPoller.record .newConnection

def writeEventCallback (a : ConnectAnswers) (s : State) : Except Halt State :=
  match a.soError with
  | none => throw (.logFatal "getsockopt failed")
  | some savedErrno => if savedErrno = 0 then pure s.connected else s.scheduleRetry a

def tryOnce (a : ConnectAnswers) (s : State) : Except Halt State :=
  let s := s.record .connect
  match a.connect with
  | .success => pure s.connected
  | .error .EINPROGRESS => pure { s with conn.pollable := s.conn.pollable.enableWriteEvent }
  | .error .EADDRINUSE | .error .EADDRNOTAVAIL | .error .EAGAIN | .error .ECONNREFUSED
  | .error .ENETUNREACH => s.scheduleRetry a
  | .error .EALREADY | .error .EISCONN => pure s.runConnectFailCallback
  | .error .EACCES | .error .EPERM | .error .EAFNOSUPPORT | .error .EBADF | .error .EFAULT
  | .error .ENOTSOCK | .error .EPROTOTYPE => pure s.runConnectFailCallback
  | .error (.other _) => throw (.logFatal "unknown error")

def start (a : ConnectAnswers) (s : State) : Except Halt State :=
  if !s.conn.hasNewConnectionCallback then throw (.logFatal "missing new connection callback")
  else { s with started := true }.tryOnce a

/-- An expiry pass moves out the timers that are due. -/
def expire (s : State) (due : RetryTimer → Bool) : State :=
  { s with timers := s.timers.filter (!due ·), expired := s.expired ++ s.timers.filter due }

end State

/-- One step of the loop thread. The owner starts the socket once and may cancel at any point,
also within a callback, since a callback is the last thing that a method runs; `allowed` are the
states in which it does. -/
inductive Step (allowed : State → Prop) : State → State → Prop
  | start {s t : State} (a : ConnectAnswers) (hidle : s.started = false)
      (hok : s.start a = .ok t) : Step allowed s t
  | cancel {s t : State} (a : ConnectAnswers) (hallowed : allowed s) (hok : s.cancel a = .ok t) :
      Step allowed s t
  | poll {s : State} (hwriting : s.conn.pollable.isWriting = true) :
      Step allowed s { s with polled := true }
  | dispatch {s t : State} (a : ConnectAnswers) (hpolled : s.polled = true)
      (hok : { s with polled := false }.writeEventCallback a = .ok t) : Step allowed s t
  | expire {s : State} (due : RetryTimer → Bool) : Step allowed s (s.expire due)
  | fire {s t : State} (a : ConnectAnswers) {timer : RetryTimer} {rest : List RetryTimer}
      (hexpired : s.expired = timer :: rest)
      (hok : { s with expired := rest }.tryOnce a = .ok t) : Step allowed s t

end PreconnectSocketfd

end XubinhServer

import XubinhServer.Http.Parser
import XubinhServer.TcpConnectSocketfd.Runs

/-! The HTTP server on one connection. Its message callback parses what has been received and
hands a complete request to the HTTP request callback, which sends. -/
namespace XubinhServer

open Halting EventPoller TcpConnectSocketfd Transition

namespace HttpServer

/-- A connection whose context is a parser and whose reports are the requests handed to the
HTTP request callback. -/
abbrev HttpState := State HttpParser HttpRequest

abbrev HttpComp := Comp HttpParser HttpRequest

/-- What the callbacks of the HTTP server send: for the `k`-th request, and in the `k`-th run of
the write-complete callback. -/
structure Callbacks where
  request : Nat → HttpRequest → List (List UInt8)
  writeComplete : Nat → List (List UInt8)

def Callbacks.script (callbacks : Callbacks) (k : Nat) : List Call :=
  (callbacks.writeComplete k).map .send

section MessageCallback
variable (callbacks : Callbacks) (writeComplete : HttpComp Unit)

def setTimeStamp (timeStamp : Int) : HttpComp Unit :=
  modify fun s => { s with conn.timeStamp := timeStamp }

def registerClosure : HttpComp Unit :=
  modify fun s => { s with conn.writeCompleteCallback := some .shutdownWrite }

/-- `_http_request_callback`. -/
def httpRequestCallback (request : HttpRequest) : HttpComp Unit := do
  let number := (← get).history.reports.length
  modify fun s => { s with history.reports := s.history.reports ++ [request] }
  runCalls writeComplete ((callbacks.request number request).map .send)

/-- The part of `_message_callback` for a parser in state `SUCCESS`. -/
def handleRequest (parser : HttpParser) : HttpComp Unit := do
  httpRequestCallback callbacks writeComplete parser.request
  if (← get).conn.isWriteEndShutdown then pure ()
  else if parser.request.needClose then
    if (← get).conn.pollable.isWriting then registerClosure
    else shutdownWrite writeComplete
  else modify fun s => { s with conn.context := some parser.reset }

def messageCallback (beyond : Nat → UInt8) (timeStamp : Int) : HttpComp Unit := do
  setTimeStamp timeStamp
  match (← get).conn.context with
  | none => throw .badAnyCast
  | some parser =>
    let (isSuccess, parser, inputBuffer) ←
      liftPure (parser.parse beyond timeStamp (← get).conn.inputBuffer)
    modify fun s => { s with conn.context := some parser, conn.inputBuffer := inputBuffer }
    if !isSuccess then abortFromEventLoop
    else if parser.isSuccess then handleRequest callbacks writeComplete parser
    else pure ()

end MessageCallback

/-- What one dispatch meets: the active events, the answers of the kernel, the time, and the
memory behind the input buffer. -/
structure HttpDispatch where
  activeEvents : UInt32
  recvs : List RecvResult
  kernel : Kernel
  timeStamp : Int
  beyond : Nat → UInt8

/-- `epoll` reports reading and writing only while they are listened on. -/
def Polled (s : HttpState) (d : HttpDispatch) : Prop :=
  s.conn.pollable.isDetached = false ∧
  (has d.activeEvents eventTypeRead = true → s.conn.pollable.isReading = true) ∧
  (has d.activeEvents eventTypeWrite = true → s.conn.pollable.isWriting = true)

instance (s : HttpState) (d : HttpDispatch) : Decidable (Polled s d) :=
  inferInstanceAs (Decidable (_ ∧ _ ∧ _))

def dispatch (callbacks : Callbacks) (depth : Nat) (d : HttpDispatch) : HttpComp Unit :=
  let writeComplete := runWriteComplete callbacks.script depth
  dispatchActiveEvents writeComplete d.activeEvents d.recvs
    (messageCallback callbacks writeComplete d.beyond d.timeStamp)

/-- A connection that runs on, or has ended the process. -/
structure Served where
  state : HttpState
  halted : Option Halt

def afterDispatch (callbacks : Callbacks) (depth : Nat) (s : HttpState) (d : HttpDispatch) :
    Served :=
  match dispatch callbacks depth d { s with kernel := d.kernel } with
  | .ok _ t => ⟨t, none⟩
  | .error e t => ⟨t, some e⟩

/-- The poller dispatches to a connection. -/
inductive Step (callbacks : Callbacks) (depth : Nat) (allowed : HttpState → HttpDispatch → Prop) :
    Served → Served → Prop
  | dispatch (s : Served) (d : HttpDispatch) (hrun : s.halted = none)
      (hpolled : Polled s.state d) (hallowed : allowed s.state d) :
    Step callbacks depth allowed s (afterDispatch callbacks depth s.state d)

/-- A connection as `_connect_success_callback_wrapper` leaves it. -/
def connected (timeStamp : Int) (hasWriteComplete : Bool) : Served :=
  ⟨started timeStamp (some .new) (if hasWriteComplete then some .user else none), none⟩

/-- The run in which the given dispatches follow one another, if they may. -/
def serve (callbacks : Callbacks) (depth : Nat) (allowed : HttpState → HttpDispatch → Prop)
    [∀ s d, Decidable (allowed s d)] (s : Served) : List HttpDispatch → Option Served
  | [] => some s
  | d :: rest =>
    if s.halted = none ∧ Polled s.state d ∧ allowed s.state d then
      serve callbacks depth allowed (afterDispatch callbacks depth s.state d) rest
    else none

theorem exists_served (callbacks : Callbacks) (depth : Nat)
    (allowed : HttpState → HttpDispatch → Prop) [∀ s d, Decidable (allowed s d)] (s : Served)
    (dispatches : List HttpDispatch) (P : Served → Prop) [DecidablePred P]
    (h : (serve callbacks depth allowed s dispatches).any (P ·) = true) :
    ∃ t, Reaches (Step callbacks depth allowed) s t ∧ P t := by
  induction dispatches generalizing s with
  | nil => exact ⟨s, .refl, of_decide_eq_true h⟩
  | cons d rest ih =>
    rw [serve] at h
    split at h
    · rename_i hstep
      obtain ⟨t, hreach, ht⟩ := ih _ h
      exact ⟨t, .head (.dispatch s d hstep.1 hstep.2.1 hstep.2.2) hreach, ht⟩
    · cases h

end HttpServer

end XubinhServer

import XubinhServer.Lib.Halting
import XubinhServer.PollableFileDescriptor
import XubinhServer.TcpBuffer

/-! A TCP connection in the loop thread that owns it. The kernel's answers are part
of the state and are consumed call by call; a callback is a computation that the
methods take as an argument. -/
namespace XubinhServer

/-- The result of `::recv`: the bytes read, none of them at the end of the stream. -/
inductive RecvResult where
  | read (data : List UInt8)
  | error (errno : Errno)
  deriving DecidableEq, Repr

inductive SendResult where
  | accepted (count : Nat)
  | error (errno : Errno)
  deriving DecidableEq, Repr

inductive ShutdownResult where
  | success
  | error (errno : Errno)
  deriving DecidableEq, Repr

/-- The outcome of `::setsockopt` and `::close` in `reset_connection`. -/
inductive ResetResult where
  | success | setsockoptFailed | closeFailed
  deriving DecidableEq, Repr

/-- The answers that the kernel has ready. Once they are used up it accepts all data and
lets every other call succeed. -/
structure Kernel where
  sends : List SendResult
  shutdowns : List ShutdownResult
  resets : List ResetResult
  deriving DecidableEq, Repr

/-- What is registered as the write-complete callback: the server's own, or the closure
that calls `shutdown_write`. -/
inductive WriteCompleteCallback where
  | user | shutdownWrite
  deriving DecidableEq, Repr

structure TcpConnectSocketfd (κ : Type) where
  pollable : PollableFileDescriptor
  inputBuffer : MutableSizeTcpBuffer
  outputBuffer : MutableSizeTcpBuffer
  context : Option κ
  timeStamp : Int
  writeCompleteCallback : Option WriteCompleteCallback
  hasCloseCallback : Bool
  isWriteEndShutdown : Bool
  isReset : Bool
  isAborted : Bool

/-- A call of one of the two methods that end in the kernel's send queue. -/
inductive Call where
  | send (data : List UInt8)
  | shutdownWrite
  deriving DecidableEq, Repr

/-- What has happened on the connection so far: the calls in order, the bytes that the kernel
took, and what the callbacks have been used for. -/
structure History (ρ : Type) where
  calls : List Call
  accepted : List UInt8
  closeCallbackRuns : Nat
  writeCompleteRuns : Nat
  reports : List ρ

structure State (κ ρ : Type) where
  conn : TcpConnectSocketfd κ
  kernel : Kernel
  history : History ρ

/-- A piece of the code of the connection. -/
abbrev Comp (κ ρ : Type) := EStateM Halt (State κ ρ)

open EventPoller Halting

namespace TcpConnectSocketfd
variable {κ ρ : Type}

/-- A connection as `TcpServer` registers it, before `start`. -/
def new (timeStamp : Int) (context : Option κ)
    (writeCompleteCallback : Option WriteCompleteCallback) : TcpConnectSocketfd κ where
  pollable := .new true
  inputBuffer := .new
  outputBuffer := .new
  context := context
  timeStamp := timeStamp
  writeCompleteCallback := writeCompleteCallback
  hasCloseCallback := true
  isWriteEndShutdown := false
  isReset := false
  isAborted := false

def start (c : TcpConnectSocketfd κ) : TcpConnectSocketfd κ :=
  { c with pollable := c.pollable.enableReadEvent }

def disableReadEvent : Comp κ ρ Unit :=
  modify fun s => { s with conn.pollable := s.conn.pollable.disableReadEvent }

def enableWriteEvent : Comp κ ρ Unit :=
  modify fun s => { s with conn.pollable := s.conn.pollable.enableWriteEvent }

def disableWriteEvent : Comp κ ρ Unit :=
  modify fun s => { s with conn.pollable := s.conn.pollable.disableWriteEvent }

def detachFromPoller : Comp κ ρ Unit :=
  modify fun s => { s with conn.pollable := s.conn.pollable.detachFromPoller }

def record (call : Call) : Comp κ ρ Unit :=
  modify fun s => { s with history.calls := s.history.calls ++ [call] }

def runCloseCallback : Comp κ ρ Unit :=
  modify fun s => { s with history.closeCallbackRuns :=
    s.history.closeCallbackRuns + if s.conn.hasCloseCallback then 1 else 0 }

def appendOutput (data : List UInt8) : Comp κ ρ Unit := do
  let outputBuffer ← liftPure ((← get).conn.outputBuffer.append data)
  modify fun s => { s with conn.outputBuffer := outputBuffer }

def appendInput (data : List UInt8) : Comp κ ρ Unit := do
  let inputBuffer ← liftPure ((← get).conn.inputBuffer.append data)
  modify fun s => { s with conn.inputBuffer := inputBuffer }

/-- The answer to the next `::shutdown`. -/
def nextShutdown : Comp κ ρ ShutdownResult :=
  modifyGet fun s => (s.kernel.shutdowns.headD .success,
    { s with kernel.shutdowns := s.kernel.shutdowns.tail })

/-- The answer to the next `::setsockopt` and `::close`. -/
def nextReset : Comp κ ρ ResetResult :=
  modifyGet fun s => (s.kernel.resets.headD .success,
    { s with kernel.resets := s.kernel.resets.tail })

def resetConnection : Comp κ ρ Unit := do
  if (← get).conn.isReset then
    throw (.logFatal "never reaches here")
  runCloseCallback
  match ← nextReset with
  | .setsockoptFailed => throw (.logFatal "setsockopt failed")
  | .closeFailed => throw (.logFatal "close failed")
  | .success =>
    modify fun s => { s with
      conn.inputBuffer := s.conn.inputBuffer.release
      conn.outputBuffer := s.conn.outputBuffer.release
      conn.context := none
      conn.isWriteEndShutdown := true
      conn.isReset := true }

def abortFromEventLoop : Comp κ ρ Unit := do
  if (← get).conn.isAborted then
    throw (.logFatal "never reaches here")
  detachFromPoller
  resetConnection
  modify fun s => { s with conn.isAborted := true }

def closeEventCallback : Comp κ ρ Unit := do
  detachFromPoller
  runCloseCallback

/-- It only reads and logs the error of the socket. -/
def errorEventCallback : Comp κ ρ Unit := pure ()

/-- The kernel takes `data`. -/
def accept (data : List UInt8) : Comp κ ρ Unit :=
  modify fun s => { s with history.accepted := s.history.accepted ++ data }

/-- The loop of `_send_as_many_data`, after `sent` bytes, over the answers of `::send`. -/
def sendLoop (data : List UInt8) : List SendResult → (sent : Nat) → Comp κ ρ Nat
  | [], sent => do
    accept (data.drop sent)
    pure data.length
  | answer :: rest, sent => do
    if sent < data.length then
      modify fun s => { s with kernel.sends := rest }
      match answer with
      | .accepted count =>
        accept ((data.drop sent).take count)
        sendLoop data rest (min (sent + count) data.length)
      | .error .EAGAIN | .error .EWOULDBLOCK => pure sent
      | .error .EPIPE =>
        abortFromEventLoop
        pure data.length
      | .error _ =>
        errorEventCallback
        sendLoop data rest sent
    else pure sent

def sendAsManyData (data : List UInt8) : Comp κ ρ Nat := do
  if data.length = 0 then pure 0
  else sendLoop data (← get).kernel.sends 0

/-- The loop of `_receive_all_data` over the answers of `::recv`; it ends with `EAGAIN`
once these are used up. -/
def receiveLoop : List RecvResult → (total : Nat) → Comp κ ρ Nat
  | [], total => pure total
  | answer :: rest, total =>
    match answer with
    | .read data => do
      if data.length > 0 then
        appendInput data
        receiveLoop rest (total + data.length)
      else
        disableReadEvent
        pure total
    | .error .EAGAIN | .error .EWOULDBLOCK => pure total
    | .error _ => do
      errorEventCallback
      receiveLoop rest total

def receiveAllData (recvs : List RecvResult) : Comp κ ρ Nat := receiveLoop recvs 0

section Callbacks
-- what the registered write-complete callback does
variable (writeComplete : Comp κ ρ Unit)

def shutdownWrite : Comp κ ρ Unit := do
  record .shutdownWrite
  if (← get).conn.isWriteEndShutdown then pure ()
  else
    let answer ← nextShutdown
    if answer = .error .ENOTCONN then abortFromEventLoop
    else
      if answer ≠ .success then closeEventCallback
      disableWriteEvent
      writeComplete
      modify fun s => { s with
        conn.outputBuffer := s.conn.outputBuffer.release
        conn.context := none
        conn.isWriteEndShutdown := true }

def send (data : List UInt8) : Comp κ ρ Unit := do
  record (.send data)
  if (← get).conn.pollable.isDetached then pure ()
  else if (← get).conn.pollable.isWriting then appendOutput data
  else
    let numberOfBytesSent ← sendAsManyData data
    if numberOfBytesSent = data.length then writeComplete
    else
      appendOutput (data.drop numberOfBytesSent)
      enableWriteEvent

/-- `_read_event_callback` up to the end of the message callback. -/
def receiveAndProcess (recvs : List RecvResult) (messageCallback : Comp κ ρ Unit) :
    Comp κ ρ Unit := do
  let totalBytesRead ← receiveAllData recvs
  if totalBytesRead ≠ 0 then messageCallback

def readEventCallback (recvs : List RecvResult) (messageCallback : Comp κ ρ Unit) :
    Comp κ ρ Unit := do
  receiveAndProcess recvs messageCallback
  if (← get).conn.pollable.isReading then pure ()
  else
    modify fun s => { s with conn.inputBuffer := s.conn.inputBuffer.release }
    if !(← get).conn.isWriteEndShutdown && !(← get).conn.pollable.isWriting then
      shutdownWrite writeComplete

/-- Send what is in the output buffer; whether nothing is left. -/
def flushOutput : Comp κ ρ Bool := do
  let data := (← get).conn.outputBuffer.unread
  if data.length > 0 then
    let numberOfBytesSent ← sendAsManyData data
    modify fun s =>
      { s with conn.outputBuffer := s.conn.outputBuffer.forwardReadPosition numberOfBytesSent }
    pure (numberOfBytesSent = data.length)
  else pure true

/-- `_write_event_callback` up to the end of the write-complete callback; whether all the
output is gone. -/
def flushAndComplete : Comp κ ρ Bool := do
  if ← flushOutput then
    disableWriteEvent
    writeComplete
    pure true
  else pure false

def writeEventCallback : Comp κ ρ Unit := do
  if (← get).conn.pollable.isDetached then pure ()
  else if (← get).conn.isWriteEndShutdown then pure ()
  else if ← flushAndComplete writeComplete then
    if !(← get).conn.pollable.isReading && !(← get).conn.pollable.isWriting then
      shutdownWrite writeComplete

/-- Run a registered callback when its event is active. -/
def dispatchEvent (activeEvents eventType : UInt32) (callback : Comp κ ρ Unit) : Comp κ ρ Unit :=
  if has activeEvents eventType then callback else pure ()

def dispatchActiveEvents (activeEvents : UInt32) (recvs : List RecvResult)
    (messageCallback : Comp κ ρ Unit) : Comp κ ρ Unit := do
  dispatchEvent activeEvents eventTypeClose closeEventCallback
  dispatchEvent activeEvents eventTypeError errorEventCallback
  dispatchEvent activeEvents eventTypeRead (readEventCallback writeComplete recvs messageCallback)
  dispatchEvent activeEvents eventTypeWrite (writeEventCallback writeComplete)

/-- A call that user code makes. -/
def runCall : Call → Comp κ ρ Unit
  | .send data => TcpConnectSocketfd.send writeComplete data
  | .shutdownWrite => TcpConnectSocketfd.shutdownWrite writeComplete

def runCalls (calls : List Call) : Comp κ ρ Unit := calls.forM (runCall writeComplete)

end Callbacks

/-- The registered write-complete callback on a call stack with room for `depth` nested
invocations. The `k`-th invocation of the server's own callback makes the calls `script k`. -/
def runWriteComplete (script : Nat → List Call) : (depth : Nat) → Comp κ ρ Unit
  | 0 => do
    if (← get).conn.writeCompleteCallback ≠ none then throw .stackOverflow
  | depth + 1 => do
    match (← get).conn.writeCompleteCallback with
    | none => pure ()
    | some callback =>
      let runs := (← get).history.writeCompleteRuns
      modify fun s => { s with history.writeCompleteRuns := runs + 1 }
      match callback with
      | .user => runCalls (runWriteComplete script depth) (script runs)
      | .shutdownWrite => shutdownWrite (runWriteComplete script depth)

end TcpConnectSocketfd

end XubinhServer

import XubinhServer.TcpConnectSocketfd.Runs

/-! The TCP server with worker threads: the main loop accepts connections and runs the functors
that the close callbacks post to it, the workers dispatch events to the connections. -/
namespace XubinhServer

open TcpConnectSocketfd

variable {κ ρ : Type}

structure TcpServer (κ ρ : Type) where
  /-- every connection that has been accepted, under its id -/
  sockets : Nat → Option (State κ ρ)
  tcpConnectionIdCounter : Nat
  /-- the keys of `_tcp_connect_socketfds` -/
  tcpConnectSocketfds : List Nat
  /-- the close functors that wait in the main loop -/
  closeFunctors : List Nat
  halted : Option Halt

/-- What one call of `dispatch_active_events` meets. -/
structure Dispatch where
  activeEvents : UInt32
  recvs : List RecvResult
  kernel : Kernel
  consumed : Nat
  calls : List Call

namespace TcpServer

def new : TcpServer κ ρ := ⟨fun _ => none, 0, [], [], none⟩

/-- `_new_connection_callback`. -/
def newConnectionCallback (s : TcpServer κ ρ) (timeStamp : Int) (context : Option κ)
    (callback : Option WriteCompleteCallback) : TcpServer κ ρ :=
  let id := s.tcpConnectionIdCounter
  { s with
    sockets := fun i => if i = id then some (started timeStamp context callback) else s.sockets i
    tcpConnectionIdCounter := id + 1
    tcpConnectSocketfds := id :: s.tcpConnectSocketfds }

/-- Put the connection `id` back after a dispatch; every run of its close callback has posted a
functor. -/
def afterDispatch (s : TcpServer κ ρ) (id : Nat) (before after : State κ ρ)
    (halted : Option Halt) : TcpServer κ ρ :=
  { s with
    sockets := fun i => if i = id then some after else s.sockets i
    closeFunctors := s.closeFunctors ++
      List.replicate (after.history.closeCallbackRuns - before.history.closeCallbackRuns) id
    halted := halted }

/-- The worker of connection `id` dispatches to it. -/
def dispatch (writeComplete : Comp κ ρ Unit) (s : TcpServer κ ρ) (id : Nat) (before : State κ ρ)
    (d : Dispatch) : TcpServer κ ρ :=
  let run := dispatchActiveEvents writeComplete d.activeEvents d.recvs
    (userMessageCallback writeComplete d.consumed d.calls)
  match run { before with kernel := d.kernel } with
  | .ok _ after => s.afterDispatch id before after none
  | .error e after => s.afterDispatch id before after (some e)

/-- The functor that `_close_callback` posts for connection `id`. -/
def runCloseFunctor (s : TcpServer κ ρ) (id : Nat) : TcpServer κ ρ :=
  let s := { s with closeFunctors := s.closeFunctors.erase id }
  if id ∈ s.tcpConnectSocketfds then
    { s with tcpConnectSocketfds := s.tcpConnectSocketfds.erase id }
  else { s with halted := some (.logFatal "never reaches here") }

/-- One step of the main loop or of a worker. `script id` is what the write-complete callback
does on connection `id`. The poller has only attached descriptors. -/
inductive Step (script : Nat → Nat → List Call) (depth : Nat)
    (allowed : State κ ρ → Dispatch → Prop) : TcpServer κ ρ → TcpServer κ ρ → Prop
  | accept {s} (timeStamp : Int) (context : Option κ)
      (callback : Option WriteCompleteCallback) (hrun : s.halted = none) :
      Step script depth allowed s (s.newConnectionCallback timeStamp context callback)
  | dispatch {s} (id : Nat) (before : State κ ρ) (d : Dispatch) (hrun : s.halted = none)
      (hid : s.sockets id = some before) (hattached : before.conn.pollable.isDetached = false)
      (hallowed : allowed before d) :
      Step script depth allowed s
        (s.dispatch (runWriteComplete (script id) depth) id before d)
  | close {s} (id : Nat) (hrun : s.halted = none) (hid : id ∈ s.closeFunctors) :
      Step script depth allowed s (s.runCloseFunctor id)

end TcpServer

end XubinhServer

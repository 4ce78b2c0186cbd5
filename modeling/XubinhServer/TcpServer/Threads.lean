import Mathlib.Logic.Function.Basic
import XubinhServer.TcpServer

/-! The threads of a server: the main loop, the loops of the workers, and the functor queues
between them. The main loop has one queue for each worker, a worker has one queue. A queue has a
capacity, and a thread that pushes to a full queue waits. -/
namespace XubinhServer.TcpServer

open TcpConnectSocketfd

open Function (update)

variable {κ ρ : Type}

/-- `_FUNCTOR_QUEUE_CAPACITY`. -/
def functorQueueCapacity : Nat := 1000

/-- What `check_and_abort_from_event_loop` posts to the worker of the connection `id`. -/
structure CheckAndAbort where
  id : Nat
  currentTimePoint : Int
  deriving DecidableEq, Repr

/-- Where the main loop is. -/
inductive MainThread where
  | looping
  /-- in `_invoke_all_functors`, before `pop_all` -/
  | invoking (queue : Nat)
  | closing (queue : Nat) (batch : List Nat)
  /-- in `run_for_each_connection`, with `rest` of the map ahead -/
  | sweeping (currentTimePoint : Int) (rest : List Nat)
  /-- in `push` on the queue of a worker -/
  | posting (functor : CheckAndAbort) (rest : List Nat)
  deriving DecidableEq, Repr

/-- A worker polls and dispatches while `batch` and `closing` are empty. -/
structure Worker where
  /-- its queue -/
  functors : List CheckAndAbort
  /-- what it has popped and still has to run -/
  batch : List CheckAndAbort
  /-- the close functors that it has to push to the main loop before it goes on -/
  closing : List Nat
  deriving DecidableEq, Repr

/-- The server and its threads. `server.closeFunctors` has every close functor that has not run
yet, `closeFunctors i` those in the queue of worker `i`. -/
structure Threads (κ ρ : Type) where
  server : TcpServer κ ρ
  main : MainThread
  closeFunctors : Nat → List Nat
  workers : Nat → Worker

/-- What a server is built with, and what its write-complete callbacks do. -/
structure Setup where
  threadPoolCapacity : Nat
  queueCapacity : Nat
  connectionTimeoutInterval : Int
  script : Nat → Nat → List Call
  depth : Nat

/-- Which dispatches happen, which connections a check-and-abort functor aborts, and when the
main loop pushes to the queue of a worker. -/
structure Allowed (κ ρ : Type) where
  dispatch : State κ ρ → Dispatch → Prop
  abort : State κ ρ → Prop
  post : Threads κ ρ → Nat → Prop

/-- The close functors that `t` has and `s` has not. -/
def notifications (s t : TcpServer κ ρ) : List Nat := t.closeFunctors.drop s.closeFunctors.length

/-- `set_time_stamp`. -/
def setTimeStamp (s : TcpServer κ ρ) (id : Nat) (before : State κ ρ) (timeStamp : Int) :
    TcpServer κ ρ :=
  { s with sockets := fun i =>
      if i = id then some { before with conn.timeStamp := timeStamp } else s.sockets i }

/-- `_check_and_abort_impl`, once its predicate holds. -/
def abort (s : TcpServer κ ρ) (id : Nat) (before : State κ ρ) (resets : List ResetResult) :
    TcpServer κ ρ :=
  match abortFromEventLoop { before with kernel := ⟨[], [], resets⟩ } with
  | .ok _ after => s.afterDispatch id before after none
  | .error e after => s.afterDispatch id before after (some e)

namespace Setup

/-- `get_next_loop` goes round the workers, once for each connection. -/
def loopIndex (setup : Setup) (id : Nat) : Nat := id % setup.threadPoolCapacity

/-- The connection has been quiet for too long. -/
def Inactive (setup : Setup) (currentTimePoint : Int) (s : State κ ρ) : Prop :=
  setup.connectionTimeoutInterval < currentTimePoint - s.conn.timeStamp

instance (setup : Setup) (currentTimePoint : Int) (s : State κ ρ) :
    Decidable (setup.Inactive currentTimePoint s) :=
  inferInstanceAs (Decidable (_ < _))

end Setup

namespace Threads

def initial (κ ρ : Type) : Threads κ ρ where
  server := new
  main := .looping
  closeFunctors _ := []
  workers _ := ⟨[], [], []⟩

/-- The server after worker `i` has dispatched an event or run a functor. -/
def afterCallback (s : Threads κ ρ) (i : Nat) (batch : List CheckAndAbort)
    (server : TcpServer κ ρ) : Threads κ ρ :=
  { s with
    server := server
    workers := update s.workers i
      ⟨(s.workers i).functors, batch, notifications s.server server⟩ }

/-- One step of the main loop or of a worker. Either thread may drain its queues in any turn. -/
inductive Move (setup : Setup) (allowed : Allowed κ ρ) : Threads κ ρ → Threads κ ρ → Prop
  | accept {s} (timeStamp : Int) (context : Option κ)
      (callback : Option WriteCompleteCallback) (hm : s.main = .looping) :
      Move setup allowed s
        { s with server := s.server.newConnectionCallback timeStamp context callback }
  | invokeAllFunctors {s} (hm : s.main = .looping) :
      Move setup allowed s { s with main := .invoking 0 }
  | popCloseFunctors {s} (i : Nat) (hm : s.main = .invoking i)
      (hi : i < setup.threadPoolCapacity) :
      Move setup allowed s { s with
        main := .closing i (s.closeFunctors i)
        closeFunctors := update s.closeFunctors i [] }
  | runCloseFunctor {s} (i id : Nat) (batch : List Nat) (hm : s.main = .closing i (id :: batch)) :
      Move setup allowed s { s with
        main := .closing i batch
        server := s.server.runCloseFunctor id }
  | nextQueue {s} (i : Nat) (hm : s.main = .closing i []) :
      Move setup allowed s { s with main := .invoking (i + 1) }
  | invoked {s} (i : Nat) (hm : s.main = .invoking i) (hi : setup.threadPoolCapacity ≤ i) :
      Move setup allowed s { s with main := .looping }
  /-- `_remove_inactive_connections`; the map is ordered by the ids. -/
  | sweep {s} (currentTimePoint : Int) (hm : s.main = .looping) :
      Move setup allowed s { s with
        main := .sweeping currentTimePoint s.server.tcpConnectSocketfds.reverse }
  | skip {s} (now : Int) (id : Nat) (rest : List Nat) (socket : State κ ρ)
      (hm : s.main = .sweeping now (id :: rest)) (hid : s.server.sockets id = some socket)
      (hactive : ¬setup.Inactive now socket) :
      Move setup allowed s { s with main := .sweeping now rest }
  | check {s} (now : Int) (id : Nat) (rest : List Nat) (socket : State κ ρ)
      (hm : s.main = .sweeping now (id :: rest)) (hid : s.server.sockets id = some socket)
      (hinactive : setup.Inactive now socket) (hallowed : allowed.post s (setup.loopIndex id)) :
      Move setup allowed s { s with main := .posting ⟨id, now⟩ rest }
  | postCheck {s} (f : CheckAndAbort) (rest : List Nat) (hm : s.main = .posting f rest)
      (hroom : (s.workers (setup.loopIndex f.id)).functors.length < setup.queueCapacity) :
      Move setup allowed s { s with
        main := .sweeping f.currentTimePoint rest
        workers := update s.workers (setup.loopIndex f.id)
          { s.workers (setup.loopIndex f.id) with
            functors := (s.workers (setup.loopIndex f.id)).functors ++ [f] } }
  | swept {s} (now : Int) (hm : s.main = .sweeping now []) :
      Move setup allowed s { s with main := .looping }
  /-- The message callback of a connection marks it as active. -/
  | setTimeStamp {s} (id : Nat) (before : State κ ρ) (timeStamp : Int)
      (hid : s.server.sockets id = some before) :
      Move setup allowed s { s with server := s.server.setTimeStamp id before timeStamp }
  | dispatch {s} (id : Nat) (before : State κ ρ) (d : Dispatch)
      (hbatch : (s.workers (setup.loopIndex id)).batch = [])
      (hclosing : (s.workers (setup.loopIndex id)).closing = [])
      (hid : s.server.sockets id = some before)
      (hattached : before.conn.pollable.isDetached = false)
      (hallowed : allowed.dispatch before d) :
      Move setup allowed s (s.afterCallback (setup.loopIndex id) []
        (s.server.dispatch (runWriteComplete (setup.script id) setup.depth) id before d))
  | popFunctors {s} (i : Nat) (hbatch : (s.workers i).batch = [])
      (hclosing : (s.workers i).closing = []) :
      Move setup allowed s { s with
        workers := update s.workers i ⟨[], (s.workers i).functors, []⟩ }
  | keep {s} (i : Nat) (f : CheckAndAbort) (batch : List CheckAndAbort) (before : State κ ρ)
      (hbatch : (s.workers i).batch = f :: batch) (hclosing : (s.workers i).closing = [])
      (hid : s.server.sockets f.id = some before)
      (hactive : ¬setup.Inactive f.currentTimePoint before) :
      Move setup allowed s { s with
        workers := update s.workers i ⟨(s.workers i).functors, batch, []⟩ }
  | abort {s} (i : Nat) (f : CheckAndAbort) (batch : List CheckAndAbort) (before : State κ ρ)
      (resets : List ResetResult) (hbatch : (s.workers i).batch = f :: batch)
      (hclosing : (s.workers i).closing = []) (hid : s.server.sockets f.id = some before)
      (hinactive : setup.Inactive f.currentTimePoint before) (hallowed : allowed.abort before) :
      Move setup allowed s (s.afterCallback i batch (s.server.abort f.id before resets))
  | postClose {s} (i id : Nat) (closing : List Nat)
      (hclosing : (s.workers i).closing = id :: closing)
      (hroom : (s.closeFunctors i).length < setup.queueCapacity) :
      Move setup allowed s { s with
        closeFunctors := update s.closeFunctors i (s.closeFunctors i ++ [id])
        workers := update s.workers i { s.workers i with closing := closing } }

/-- A step before the program has halted. -/
def Step (setup : Setup) (allowed : Allowed κ ρ) (s t : Threads κ ρ) : Prop :=
  s.server.halted = none ∧ Move setup allowed s t

/-- How many connections of worker `i` the server has in its map. -/
def connections (setup : Setup) (s : Threads κ ρ) (i : Nat) : Nat :=
  (s.server.tcpConnectSocketfds.filter (setup.loopIndex · = i)).length

end Threads

end XubinhServer.TcpServer

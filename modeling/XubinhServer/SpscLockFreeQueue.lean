import Mathlib.Logic.Function.Basic
import XubinhServer.Lib.Transition

/-! The queue of one producer and one consumer, one load, store or deletion at a time. Nodes are
addresses, and the address of a deleted node may be used for a new one. -/
namespace XubinhServer.SpscLockFreeQueue

/-- A node is touched that was deleted. -/
inductive Fault where
  | deleted (node : Nat)
  deriving DecidableEq, Repr

/-- Where the producer is in `_push`, with its local variables. -/
inductive Producer where
  | idle
  /-- before `old_tail = _tail` -/
  | pushing (newNode : Nat)
  /-- before `_tail = new_node` -/
  | moving (newNode oldTail : Nat)
  /-- before the store to `old_tail->_next` -/
  | linking (newNode oldTail : Nat)
  deriving DecidableEq, Repr

variable {T : Type}

/-- Where the consumer is in `pop`, with its local variables. -/
inductive Consumer (T : Type) where
  | idle
  /-- before the load of `_head->_next`, with the `_head` that has been loaded -/
  | looking (head : Nat)
  /-- before the load of `next->_value` -/
  | found (next : Nat)
  /-- before `next->_value` is set to null -/
  | taken (next : Nat) (poppedElement : Option T)
  /-- before `old_head = _head` -/
  | cleared (next : Nat) (poppedElement : Option T)
  /-- before `_head = next` -/
  | moving (next : Nat) (poppedElement : Option T) (oldHead : Nat)
  /-- before `delete old_head` -/
  | deleting (poppedElement : Option T) (oldHead : Nat)
  deriving DecidableEq, Repr

/-- What the callers see: a call of `push`, its return, and what a call of `pop` returns. -/
inductive Event (T : Type) where
  | pushed (value : T)
  | completed
  | returned (poppedElement : Option T)
  deriving DecidableEq, Repr

namespace Event

def pushed? : Event T → Option T
  | pushed value => some value
  | _ => none

def popped? : Event T → Option T
  | returned poppedElement => poppedElement
  | _ => none

def isCompleted : Event T → Bool
  | completed => true
  | _ => false

end Event

/-- The members, the memory of the nodes with the addresses of those that are not deleted, the two
threads, and what their callers have seen. -/
structure State (T : Type) where
  head : Nat
  tail : Nat
  next : Nat → Option Nat
  value : Nat → Option T
  live : List Nat
  producer : Producer
  consumer : Consumer T
  history : List (Event T)

/-- The values of all calls of `push`, in order. -/
def pushes (history : List (Event T)) : List T := history.filterMap Event.pushed?

/-- The values of the calls of `push` that have returned. -/
def completions (history : List (Event T)) : List T :=
  (pushes history).take (history.countP Event.isCompleted)

/-- The values of the successful calls of `pop`, in order. -/
def pops (history : List (Event T)) : List T := history.filterMap Event.popped?

namespace State

/-- The constructor. The memory may hold anything before. -/
def construct (next : Nat → Option Nat) (value : Nat → Option T) (node : Nat) : State T where
  head := node
  tail := node
  next := Function.update next node none
  value := Function.update value node none
  live := [node]
  producer := .idle
  consumer := .idle
  history := []

/-- An access to `node`, and what is done with it. -/
def touch (s : State T) (node : Nat) (t : State T) : Except Fault (State T) :=
  if node ∈ s.live then pure t else throw (.deleted node)

/-- `new Node(value)`, at the address `newNode`. -/
def push (s : State T) (value : T) (newNode : Nat) : State T :=
  { s with
    next := Function.update s.next newNode none
    value := Function.update s.value newNode (some value)
    live := newNode :: s.live
    producer := .pushing newNode
    history := s.history ++ [.pushed value] }

/-- The next step of `_push`. -/
def produce (s : State T) : Except Fault (State T) :=
  match s.producer with
  | .idle => pure s
  | .pushing newNode => pure { s with producer := .moving newNode s.tail }
  | .moving newNode oldTail => pure { s with tail := newNode, producer := .linking newNode oldTail }
  | .linking newNode oldTail =>
    s.touch oldTail
      { s with
        next := Function.update s.next oldTail (some newNode)
        producer := .idle
        history := s.history ++ [.completed] }

/-- The load of `_head->_next`, behind which a null pointer is returned at once. -/
def look (s : State T) (head : Nat) : State T :=
  match s.next head with
  | none => { s with consumer := .idle, history := s.history ++ [.returned none] }
  | some next => { s with consumer := .found next }

/-- The next step of `pop`. -/
def consume (s : State T) : Except Fault (State T) :=
  match s.consumer with
  | .idle => pure { s with consumer := .looking s.head }
  | .looking head => s.touch head (s.look head)
  | .found next => s.touch next { s with consumer := .taken next (s.value next) }
  | .taken next poppedElement =>
    s.touch next
      { s with
        value := Function.update s.value next none
        consumer := .cleared next poppedElement }
  | .cleared next poppedElement => pure { s with consumer := .moving next poppedElement s.head }
  | .moving next poppedElement oldHead =>
    pure { s with head := next, consumer := .deleting poppedElement oldHead }
  | .deleting poppedElement oldHead =>
    s.touch oldHead
      { s with
        live := s.live.erase oldHead
        consumer := .idle
        history := s.history ++ [.returned poppedElement] }

/-- The loop of the destructor. After as many rounds as there were nodes, none is left. -/
def destroyFrom : Nat → State T → Nat → Except Fault (State T)
  | 0, _, currentNode => throw (.deleted currentNode)
  | n + 1, s, currentNode => do
    let t ← s.touch currentNode { s with live := s.live.erase currentNode }
    match s.next currentNode with
    | none => pure t
    | some nextNode => destroyFrom n t nextNode

/-- The destructor, which is not thread-safe. -/
def destroy (s : State T) : Except Fault (State T) := destroyFrom s.live.length s s.head

end State

/-- One step of one of the two threads. -/
inductive Step : State T → State T → Prop
  | push {s : State T} (value : T) (newNode : Nat) (hidle : s.producer = .idle)
      (hnew : newNode ∉ s.live) : Step s (s.push value newNode)
  | produce {s t : State T} (hok : s.produce = .ok t) : Step s t
  | consume {s t : State T} (hok : s.consume = .ok t) : Step s t

end XubinhServer.SpscLockFreeQueue

import XubinhServer.Lib.Custody
import XubinhServer.Lib.Transition
import XubinhServer.SlabAllocator

/-! The free slabs of all threads on one stack, without locks. `SemiLockFreeSlabAllocator` and
`StaticSemiLockFreeSlabAllocator` differ in where their members are, not in what they do. -/
namespace XubinhServer.SemiLockFreeSlabAllocator

open Transition FreeList SlabAllocator

@[irreducible] def NUMBER_OF_SLABS_PER_CHUNK : Nat := 4000

theorem two_le_NUMBER_OF_SLABS_PER_CHUNK : 2 ≤ NUMBER_OF_SLABS_PER_CHUNK := by
  simp [NUMBER_OF_SLABS_PER_CHUNK]

structure TaggedLinkedListNodePtr where
  nodePtr : Option Nat
  tag : Nat
  deriving DecidableEq, Repr

/-- The nodes that a `compare_exchange_weak` loop puts onto the stack: one slab in `deallocate`, a
chunk in `_allocate_one_chunk`, whose last slab is preserved for the caller. -/
structure Insertion where
  nodePtr : Nat
  tail : Nat
  preservedSlab : Option Nat
  deriving DecidableEq, Repr

/-- Where a thread is between two atomic steps, with its local variables. -/
inductive Phase where
  | idle
  /-- in the loop of `allocate`, with a head that has been loaded -/
  | looking (oldHead : TaggedLinkedListNodePtr)
  /-- before the `compare_exchange_weak` of `allocate` -/
  | popping (node : Nat) (tag : Nat) (newHead : TaggedLinkedListNodePtr)
  /-- in the loop of `_allocate_one_chunk` that links the nodes -/
  | linking (newChunk i previousNode : Nat)
  /-- in a loop that inserts nodes, with a head that has been loaded -/
  | joining (nodes : Insertion) (oldHead : TaggedLinkedListNodePtr)
  /-- before the `compare_exchange_weak` of such a loop -/
  | pushing (nodes : Insertion) (oldHead newHead : TaggedLinkedListNodePtr)
  deriving DecidableEq, Repr

/-- The members, the memory, the threads; and the slabs that `allocate` has returned and that have
not been passed to `deallocate`. -/
structure State (ι : Type) where
  linkedListOfFreeSlabs : TaggedLinkedListNodePtr
  allocatedChunks : List Nat
  next : Memory
  threads : ι → Phase
  live : List Nat

variable {ι : Type} [DecidableEq ι]

namespace State

def initial : State ι := ⟨⟨none, 0⟩, [], fun _ => none, fun _ => .idle, []⟩

def setThread (s : State ι) (t : ι) (phase : Phase) : State ι :=
  { s with threads := Function.update s.threads t phase }

/-- A call ends in thread `t`, and may return a slab. -/
def finish (s : State ι) (t : ι) (slab : Option Nat) : State ι :=
  { s.setThread t .idle with live := slab.toList ++ s.live }

/-- The slabs of all allocated chunks. -/
def Allocated (width : Nat) (s : State ι) (slab : Nat) : Prop :=
  ∃ chunk ∈ s.allocatedChunks, slab ∈ slabs width chunk NUMBER_OF_SLABS_PER_CHUNK

/-- A chunk from `newChunk` on meets no chunk that has been allocated. -/
def Fresh (width : Nat) (s : State ι) (newChunk : Nat) : Prop :=
  ∀ chunk ∈ s.allocatedChunks, Apart (width * NUMBER_OF_SLABS_PER_CHUNK) chunk newChunk

/-- `allocate` loads the head. -/
def allocate (s : State ι) (t : ι) (n : Nat) : Except Fault (State ι) :=
  if n ≠ 1 then throw .badAlloc else pure (s.setThread t (.looking s.linkedListOfFreeSlabs))

/-- `_allocate_one_chunk` up to its loop. `newChunk` is what `aalloc` returns. -/
def allocateOneChunk (s : State ι) (t : ι) (newChunk : Nat) : State ι :=
  let s := { s with allocatedChunks := s.allocatedChunks ++ [newChunk] }
  if NUMBER_OF_SLABS_PER_CHUNK = 1 then s.finish t (some newChunk)
  else s.setThread t (.linking newChunk 1 newChunk)

/-- The body of the loop of `allocate`, which reads the `next` pointer of a node that may be live
again. -/
def look (s : State ι) (t : ι) (oldHead : TaggedLinkedListNodePtr) (newChunk : Nat) : State ι :=
  match oldHead.nodePtr with
  | none => s.allocateOneChunk t newChunk
  | some node => s.setThread t (.popping node oldHead.tag ⟨s.next node, oldHead.tag + 1⟩)

/-- The `compare_exchange_weak` of `allocate`, which may fail although the heads are equal. -/
def pop (s : State ι) (t : ι) (node tag : Nat) (newHead : TaggedLinkedListNodePtr)
    (spurious : Bool) : State ι :=
  if s.linkedListOfFreeSlabs = ⟨some node, tag⟩ ∧ spurious = false then
    { s with linkedListOfFreeSlabs := newHead }.finish t (some node)
  else s.setThread t (.looking s.linkedListOfFreeSlabs)

/-- One round of the loop that links the nodes of a chunk, or the load of the head behind it. -/
def link (width : Nat) (s : State ι) (t : ι) (newChunk i previousNode : Nat) : State ι :=
  if i < NUMBER_OF_SLABS_PER_CHUNK - 1 then
    let currentNode := previousNode + width
    { s with next := Function.update s.next currentNode (some previousNode) }.setThread t
      (.linking newChunk (i + 1) currentNode)
  else
    s.setThread t
      (.joining ⟨previousNode, newChunk, some (previousNode + width)⟩ s.linkedListOfFreeSlabs)

/-- `deallocate` loads the head. `name` is the name of the allocator. -/
def deallocate (name : String) (s : State ι) (t : ι) (slab n : Nat) : Except Fault (State ι) :=
  if n ≠ 1 then
    throw (.abort ("@xubinh_server::util::" ++ name ++ "::deallocate: " ++
      "multiple slabs are returned at once\n"))
  else
    pure ({ s with live := s.live.erase slab }.setThread t
      (.joining ⟨slab, slab, none⟩ s.linkedListOfFreeSlabs))

/-- The body of a loop that inserts nodes. -/
def join (s : State ι) (t : ι) (nodes : Insertion) (oldHead : TaggedLinkedListNodePtr) :
    State ι :=
  { s with next := Function.update s.next nodes.tail oldHead.nodePtr }.setThread t
    (.pushing nodes oldHead ⟨some nodes.nodePtr, oldHead.tag + 1⟩)

/-- The `compare_exchange_weak` of such a loop. -/
def push (s : State ι) (t : ι) (nodes : Insertion) (oldHead newHead : TaggedLinkedListNodePtr)
    (spurious : Bool) : State ι :=
  if s.linkedListOfFreeSlabs = oldHead ∧ spurious = false then
    { s with linkedListOfFreeSlabs := newHead }.finish t nodes.preservedSlab
  else s.setThread t (.joining nodes s.linkedListOfFreeSlabs)

end State

/-- One atomic step of one thread. A live slab is its owner's, who may write to it at any time, and
may deallocate it as the one slab that it has been allocated as. -/
inductive Step (width : Nat) : State ι → State ι → Prop
  | allocate {s s' : State ι} (t : ι) (n : Nat) (ht : s.threads t = .idle)
      (hok : s.allocate t n = .ok s') : Step width s s'
  | look {s : State ι} (t : ι) (oldHead : TaggedLinkedListNodePtr) (newChunk : Nat)
      (ht : s.threads t = .looking oldHead) (hnew : s.Fresh width newChunk) :
      Step width s (s.look t oldHead newChunk)
  | pop {s : State ι} (t : ι) (node tag : Nat) (newHead : TaggedLinkedListNodePtr)
      (spurious : Bool) (ht : s.threads t = .popping node tag newHead) :
      Step width s (s.pop t node tag newHead spurious)
  | link {s : State ι} (t : ι) (newChunk i previousNode : Nat)
      (ht : s.threads t = .linking newChunk i previousNode) :
      Step width s (s.link width t newChunk i previousNode)
  | deallocate {s s' : State ι} (name : String) (t : ι) (slab : Nat) (ht : s.threads t = .idle)
      (hslab : slab ∈ s.live) (hok : s.deallocate name t slab 1 = .ok s') : Step width s s'
  | join {s : State ι} (t : ι) (nodes : Insertion) (oldHead : TaggedLinkedListNodePtr)
      (ht : s.threads t = .joining nodes oldHead) : Step width s (s.join t nodes oldHead)
  | push {s : State ι} (t : ι) (nodes : Insertion) (oldHead newHead : TaggedLinkedListNodePtr)
      (spurious : Bool) (ht : s.threads t = .pushing nodes oldHead newHead) :
      Step width s (s.push t nodes oldHead newHead spurious)
  | write {s : State ι} (slab : Nat) (value : Option Nat) (hslab : slab ∈ s.live) :
      Step width s { s with next := Function.update s.next slab value }

end XubinhServer.SemiLockFreeSlabAllocator

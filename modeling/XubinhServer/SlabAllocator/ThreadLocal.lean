import XubinhServer.Lib.Custody
import XubinhServer.Lib.Transition
import XubinhServer.SlabAllocator

/-! Slabs that are allocated in one thread and deallocated in another. A thread has a free list of
its own; a chunk that it has too much of goes through the central pool. -/
namespace XubinhServer.StaticThreadLocalSlabAllocator

open Transition FreeList SlabAllocator

@[irreducible] def NUMBER_OF_SLABS_PER_CHUNK : Nat := 4000

theorem NUMBER_OF_SLABS_PER_CHUNK_pos : 0 < NUMBER_OF_SLABS_PER_CHUNK := by
  simp [NUMBER_OF_SLABS_PER_CHUNK]

structure FreeChunkNode where
  chunkHead : Option Nat
  chunkTail : Option Nat
  deriving DecidableEq, Repr

/-- What a thread is in the middle of. Only its accesses to the central pool lie between its own
steps: `allocate` mounts what it has found there, `deallocate` brings what it has cut off. -/
inductive Phase where
  | idle
  | mounting (freeChunkNode : FreeChunkNode)
  | handingIn (newNode : FreeChunkNode)
  deriving DecidableEq, Repr

/-- The `thread_local` members. -/
structure LocalPool where
  linkedListOfFreeSlabs : Option Nat
  numberOfFreeSlabs : Nat
  allocatedChunks : List Nat
  cutOffThreshold : Nat
  phase : Phase
  deriving DecidableEq, Repr

def LocalPool.new : LocalPool := ⟨none, 0, [], NUMBER_OF_SLABS_PER_CHUNK, .idle⟩

namespace LocalPool

/-- `newChunk` is what `aalloc` returns. -/
def allocateOneChunk (width newChunk : Nat) (p : LocalPool) (next : Memory) :
    LocalPool × Memory :=
  let (head, next) :=
    carve width NUMBER_OF_SLABS_PER_CHUNK newChunk p.linkedListOfFreeSlabs next
  ({ p with
    linkedListOfFreeSlabs := head
    allocatedChunks := p.allocatedChunks ++ [newChunk] }, next)

/-- The end of `allocate`: one slab comes off the free list. -/
def takeSlab (p : LocalPool) (next : Memory) : Except Fault (Nat × LocalPool) :=
  match p.linkedListOfFreeSlabs with
  | none => throw .nullPointer
  | some chosenSlab => pure (chosenSlab, { p with
      linkedListOfFreeSlabs := next chosenSlab
      numberOfFreeSlabs := p.numberOfFreeSlabs - 1 })

/-- `allocate` after its look at the central pool, up to the slab that it takes. -/
def mount (width newChunk : Nat) (p : LocalPool) (freeChunkNode : FreeChunkNode)
    (next : Memory) : Except Fault (LocalPool × Memory) := do
  let (p, next) ← match freeChunkNode.chunkHead with
    | some chunkHead => do
      let next ← writeNext next freeChunkNode.chunkTail p.linkedListOfFreeSlabs
      pure ({ p with linkedListOfFreeSlabs := some chunkHead }, next)
    | none => do
      let (p, next) := allocateOneChunk width newChunk p next
      pure ({ p with cutOffThreshold := p.cutOffThreshold + NUMBER_OF_SLABS_PER_CHUNK }, next)
  pure ({ p with
    numberOfFreeSlabs := p.numberOfFreeSlabs + NUMBER_OF_SLABS_PER_CHUNK
    phase := .idle }, next)

/-- A chunk is cut off the free list, with its tail at the end of a walk. -/
def cutOff (p : LocalPool) (next : Memory) : Except Fault (LocalPool × Memory) :=
  let chunkHead := p.linkedListOfFreeSlabs
  match chunkHead.bind (walk next (NUMBER_OF_SLABS_PER_CHUNK - 1)) with
  | none => throw .nullPointer
  | some chunkTail => pure ({ p with
      linkedListOfFreeSlabs := next chunkTail
      phase := .handingIn ⟨chunkHead, some chunkTail⟩ }, Function.update next chunkTail none)

/-- `deallocate` up to its access to the central pool. -/
def deallocate (p : LocalPool) (slab n : Nat) (next : Memory) :
    Except Fault (LocalPool × Memory) := do
  if n ≠ 1 then
    throw (.abort ("@xubinh_server::util::StaticThreadLocalSlabAllocator::deallocate: " ++
      "multiple slabs are returned at once\n"))
  let next := Function.update next slab p.linkedListOfFreeSlabs
  let p := { p with
    linkedListOfFreeSlabs := some slab
    numberOfFreeSlabs := p.numberOfFreeSlabs + 1 }
  if p.numberOfFreeSlabs ≥ p.cutOffThreshold then cutOff p next else pure (p, next)

end LocalPool

/-- The threads, the central pool and the memory; and the slabs that `allocate` has returned and
that have not been passed to `deallocate`. -/
structure State (ι : Type) where
  threads : ι → LocalPool
  freeChunks : List FreeChunkNode
  next : Memory
  live : List Nat
  fault : Option Fault

variable {ι : Type} [DecidableEq ι]

namespace State

def initial : State ι := ⟨fun _ => .new, [], fun _ => none, [], none⟩

def setThread (s : State ι) (t : ι) (p : LocalPool) : State ι :=
  { s with threads := Function.update s.threads t p }

/-- The slabs of all allocated chunks. -/
def Allocated (width : Nat) (s : State ι) (slab : Nat) : Prop :=
  ∃ t, ∃ chunk ∈ (s.threads t).allocatedChunks,
    slab ∈ slabs width chunk NUMBER_OF_SLABS_PER_CHUNK

/-- A chunk from `newChunk` on meets no chunk that has been allocated. -/
def Fresh (width : Nat) (s : State ι) (newChunk : Nat) : Prop :=
  ∀ t, ∀ chunk ∈ (s.threads t).allocatedChunks,
    Apart (width * NUMBER_OF_SLABS_PER_CHUNK) chunk newChunk

/-- The end of `allocate` in thread `t`. -/
def take (s : State ι) (t : ι) : State ι :=
  match (s.threads t).takeSlab s.next with
  | .error fault => { s with fault := some fault }
  | .ok (chosenSlab, p) => { s.setThread t p with live := chosenSlab :: s.live }

/-- `allocate` finds its free list empty, and looks at the central pool under the mutex. -/
def look (s : State ι) (t : ι) : State ι :=
  match s.freeChunks.getLast? with
  | none => s.setThread t { s.threads t with phase := .mounting ⟨none, none⟩ }
  | some freeChunkNode =>
    { s.setThread t { s.threads t with phase := .mounting freeChunkNode } with
      freeChunks := s.freeChunks.dropLast }

/-- `allocate` up to its access to the central pool, or to its end where it needs none. -/
def allocate (s : State ι) (t : ι) (n : Nat) : Except Fault (State ι) :=
  if n ≠ 1 then throw .badAlloc
  else if (s.threads t).numberOfFreeSlabs = 0 then pure (s.look t)
  else pure (s.take t)

def mount (width : Nat) (s : State ι) (t : ι) (freeChunkNode : FreeChunkNode)
    (newChunk : Nat) : State ι :=
  match (s.threads t).mount width newChunk freeChunkNode s.next with
  | .error fault => { s with fault := some fault }
  | .ok (p, next) => { s.setThread t p with next := next }.take t

def deallocate (s : State ι) (t : ι) (slab n : Nat) : State ι :=
  match (s.threads t).deallocate slab n s.next with
  | .error fault => { s with fault := some fault }
  | .ok (p, next) => { s.setThread t p with next := next, live := s.live.erase slab }

/-- The end of `deallocate`: a chunk comes to the central pool under the mutex. -/
def handIn (s : State ι) (t : ι) (newNode : FreeChunkNode) : State ι :=
  { s.setThread t { s.threads t with
      numberOfFreeSlabs := (s.threads t).numberOfFreeSlabs - NUMBER_OF_SLABS_PER_CHUNK
      phase := .idle } with
    freeChunks := s.freeChunks ++ [newNode] }

end State

/-- One step of one thread. `allocate` may be asked for any number of slabs; an exception of it
changes nothing. A live slab is its owner's, who may write to it, and may deallocate it in any
thread, as the one slab that it has been allocated as. -/
inductive Step (width : Nat) : State ι → State ι → Prop
  | allocate {s s' : State ι} (t : ι) (n : Nat) (hs : s.fault = none)
      (ht : (s.threads t).phase = .idle) (hok : s.allocate t n = .ok s') : Step width s s'
  | mount {s : State ι} (t : ι) (freeChunkNode : FreeChunkNode) (newChunk : Nat)
      (hs : s.fault = none) (ht : (s.threads t).phase = .mounting freeChunkNode)
      (hnew : s.Fresh width newChunk) : Step width s (s.mount width t freeChunkNode newChunk)
  | deallocate {s : State ι} (t : ι) (slab : Nat) (hs : s.fault = none)
      (ht : (s.threads t).phase = .idle) (hslab : slab ∈ s.live) :
      Step width s (s.deallocate t slab 1)
  | handIn {s : State ι} (t : ι) (newNode : FreeChunkNode) (hs : s.fault = none)
      (ht : (s.threads t).phase = .handingIn newNode) : Step width s (s.handIn t newNode)
  | write {s : State ι} (slab : Nat) (value : Option Nat) (hs : s.fault = none)
      (hslab : slab ∈ s.live) :
      Step width s { s with next := Function.update s.next slab value }


end XubinhServer.StaticThreadLocalSlabAllocator

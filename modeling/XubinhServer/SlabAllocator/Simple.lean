import Mathlib.Data.List.Perm.Basic
import XubinhServer.Lib.Transition
import XubinhServer.SlabAllocator

/-! The slab allocator of one thread, which `SimpleSlabAllocator` has for each of its instances
and `StaticSimpleSlabAllocator` once for all of them. -/
namespace XubinhServer

open Transition FreeList SlabAllocator

structure SimpleSlabAllocator where
  linkedListOfFreeSlabs : Option Nat
  allocatedChunks : List Nat

namespace SimpleSlabAllocator

@[irreducible] def NUMBER_OF_SLABS_PER_CHUNK : Nat := 4000

theorem NUMBER_OF_SLABS_PER_CHUNK_pos : 0 < NUMBER_OF_SLABS_PER_CHUNK := by
  simp [NUMBER_OF_SLABS_PER_CHUNK]

def new : SimpleSlabAllocator := ⟨none, []⟩

/-- `newChunk` is what `aalloc` returns. -/
def allocateOneChunk (width newChunk : Nat) (a : SimpleSlabAllocator) (next : Memory) :
    SimpleSlabAllocator × Memory :=
  let (head, next) :=
    carve width NUMBER_OF_SLABS_PER_CHUNK newChunk a.linkedListOfFreeSlabs next
  (⟨head, a.allocatedChunks ++ [newChunk]⟩, next)

/-- A new chunk is allocated if the free list is empty. -/
def replenish (width newChunk : Nat) (a : SimpleSlabAllocator) (next : Memory) :
    SimpleSlabAllocator × Memory :=
  match a.linkedListOfFreeSlabs with
  | none => a.allocateOneChunk width newChunk next
  | some _ => (a, next)

def allocate (width newChunk n : Nat) (a : SimpleSlabAllocator) (next : Memory) :
    Except Fault (Nat × SimpleSlabAllocator × Memory) := do
  if n ≠ 1 then throw .badAlloc
  let (a, next) := a.replenish width newChunk next
  match a.linkedListOfFreeSlabs with
  | none => throw .nullPointer
  | some chosenSlab =>
    pure (chosenSlab, { a with linkedListOfFreeSlabs := next chosenSlab }, next)

/-- `name` is the class of the message. -/
def deallocate (name : String) (slab n : Nat) (a : SimpleSlabAllocator) (next : Memory) :
    Except Fault (SimpleSlabAllocator × Memory) := do
  if n ≠ 1 then
    throw (.abort ("@xubinh_server::util::" ++ name ++
      "::deallocate: multiple slabs are returned at once\n"))
  pure ({ a with linkedListOfFreeSlabs := some slab },
    Function.update next slab a.linkedListOfFreeSlabs)

/-- The allocator and the memory, the slabs that have been allocated and not been returned, and the
most of them that there have been at one time. -/
structure State where
  allocator : SimpleSlabAllocator
  next : Memory
  live : List Nat
  peak : Nat
  fault : Option Fault

namespace State

def initial : State := ⟨.new, fun _ => none, [], 0, none⟩

/-- The slabs of all chunks. -/
def slabs (width : Nat) (s : State) : List Nat :=
  s.allocator.allocatedChunks.flatMap fun chunk =>
    FreeList.slabs width chunk NUMBER_OF_SLABS_PER_CHUNK

/-- The memory of a new chunk is not in use. -/
def Fresh (width : Nat) (s : State) (newChunk : Nat) : Prop :=
  ∀ a ∈ FreeList.slabs width newChunk NUMBER_OF_SLABS_PER_CHUNK, ∀ b ∈ s.slabs width,
    Apart width a b

def allocate (width : Nat) (s : State) (newChunk n : Nat) : State :=
  match s.allocator.allocate width newChunk n s.next with
  | .error fault => { s with fault := some fault }
  | .ok (slab, allocator, next) => { s with
      allocator := allocator
      next := next
      live := slab :: s.live
      peak := max s.peak (s.live.length + 1) }

def deallocate (name : String) (s : State) (slab n : Nat) : State :=
  match s.allocator.deallocate name slab n s.next with
  | .error fault => { s with fault := some fault }
  | .ok (allocator, next) => { s with
      allocator := allocator
      next := next
      live := s.live.erase slab }

end State

/-- A container takes and returns one slab at a time, and its owner writes to it. -/
inductive Step (width : Nat) : State → State → Prop
  | allocate {s} (newChunk : Nat) (hfresh : s.Fresh width newChunk) :
      Step width s (s.allocate width newChunk 1)
  | deallocate {s} (name : String) (slab : Nat) (hlive : slab ∈ s.live) :
      Step width s (s.deallocate name slab 1)
  | write {s} (slab : Nat) (value : Option Nat) (hlive : slab ∈ s.live) :
      Step width s { s with next := Function.update s.next slab value }

/-- Each slab is live or in the free list. -/
structure Partitioned (width : Nat) (s : State) (free : List Nat) : Prop where
  fault : s.fault = none
  linked : Linked s.next s.allocator.linkedListOfFreeSlabs free none
  perm : (s.live ++ free).Perm (s.slabs width)
  apart : (s.slabs width).Pairwise (Apart width)

/-- A chunk is allocated only for a slab that does not fit into the others. -/
structure Tight (s : State) : Prop where
  live_le : s.live.length ≤ s.peak
  peak_le : s.peak ≤ s.allocator.allocatedChunks.length * NUMBER_OF_SLABS_PER_CHUNK
  lt_peak : s.allocator.allocatedChunks.length * NUMBER_OF_SLABS_PER_CHUNK <
    s.peak + NUMBER_OF_SLABS_PER_CHUNK

variable {width newChunk slab : Nat} {s s' : State} {free : List Nat}

theorem partitioned_initial : Partitioned width .initial [] where
  fault := rfl
  linked := rfl
  perm := .refl _
  apart := .nil

theorem tight_initial : Tight .initial where
  live_le := Nat.le_refl _
  peak_le := Nat.zero_le _
  lt_peak := by
    have hpos := NUMBER_OF_SLABS_PER_CHUNK_pos
    simp [State.initial, new, hpos]

theorem length_slabs (width : Nat) (s : State) : (s.slabs width).length =
    s.allocator.allocatedChunks.length * NUMBER_OF_SLABS_PER_CHUNK := by
  rw [State.slabs, List.length_flatMap]
  simp

/-- What comes off the free list is what `replenish` leaves in front. -/
theorem allocate_eq (hhead : (s.allocator.replenish width newChunk s.next).1.linkedListOfFreeSlabs =
    some slab) : s.allocate width newChunk 1 = { s with
      allocator := { (s.allocator.replenish width newChunk s.next).1 with
        linkedListOfFreeSlabs := (s.allocator.replenish width newChunk s.next).2 slab }
      next := (s.allocator.replenish width newChunk s.next).2
      live := slab :: s.live
      peak := max s.peak (s.live.length + 1) } := by
  have hallocate : s.allocator.allocate width newChunk 1 s.next = .ok (slab,
      { (s.allocator.replenish width newChunk s.next).1 with
        linkedListOfFreeSlabs := (s.allocator.replenish width newChunk s.next).2 slab },
      (s.allocator.replenish width newChunk s.next).2) := by
    simp [SimpleSlabAllocator.allocate, hhead, pure, Except.pure]
  rw [State.allocate, hallocate]

namespace Partitioned

theorem nodup (hwidth : 0 < width) (h : Partitioned width s free) : (s.live ++ free).Nodup := by
  have hslabs : (s.slabs width).Nodup := h.apart.imp fun hapart => hapart.ne hwidth
  exact h.perm.nodup_iff.mpr hslabs

theorem length_eq (h : Partitioned width s free) : s.live.length + free.length =
    s.allocator.allocatedChunks.length * NUMBER_OF_SLABS_PER_CHUNK := by
  rw [← length_slabs width s, ← h.perm.length_eq, List.length_append]

/-- A slab comes off the free list. -/
theorem take (h : Partitioned width s (slab :: free)) (peak : Nat) : Partitioned width { s with
    allocator := { s.allocator with linkedListOfFreeSlabs := s.next slab }
    live := slab :: s.live
    peak := peak } free where
  fault := h.fault
  linked := h.linked.2
  perm := List.perm_middle.symm.trans h.perm
  apart := h.apart

/-- A new chunk becomes the free list. -/
theorem allocateOneChunk (hwidth : 0 < width) (h : Partitioned width s [])
    (hfresh : s.Fresh width newChunk) : Partitioned width { s with
      allocator := (s.allocator.allocateOneChunk width newChunk s.next).1
      next := (s.allocator.allocateOneChunk width newChunk s.next).2 }
      (FreeList.slabs width newChunk NUMBER_OF_SLABS_PER_CHUNK).reverse := by
  have hslabs : (s.allocator.allocatedChunks ++ [newChunk]).flatMap (fun chunk =>
      FreeList.slabs width chunk NUMBER_OF_SLABS_PER_CHUNK) =
        s.slabs width ++ FreeList.slabs width newChunk NUMBER_OF_SLABS_PER_CHUNK := by
    rw [List.flatMap_append, List.flatMap_singleton]
    rfl
  have hperm := h.perm
  rw [List.append_nil] at hperm
  constructor
  · exact h.fault
  · have hnew : ∀ a ∈ FreeList.slabs width newChunk NUMBER_OF_SLABS_PER_CHUNK, a ∉ [] :=
      fun _ _ => List.not_mem_nil
    have hlinked := h.linked.carve hwidth hnew
    rwa [List.append_nil] at hlinked
  · change List.Perm _ ((s.allocator.allocatedChunks ++ [newChunk]).flatMap _)
    rw [hslabs]
    exact hperm.append (List.reverse_perm _)
  · change List.Pairwise _ ((s.allocator.allocatedChunks ++ [newChunk]).flatMap _)
    rw [hslabs]
    refine List.pairwise_append.mpr ⟨h.apart, pairwise_slabs, fun a ha b hb => ?_⟩
    exact (hfresh b hb a ha).symm

/-- What `allocate` does: the slab that it returns was not live. -/
theorem allocate (hwidth : 0 < width) (h : Partitioned width s free)
    (hfresh : s.Fresh width newChunk) :
    ∃ slab rest, (s.allocate width newChunk 1).live = slab :: s.live ∧
      (s.allocate width newChunk 1).peak = max s.peak (s.live.length + 1) ∧
      (s.allocate width newChunk 1).allocator.allocatedChunks.length =
        s.allocator.allocatedChunks.length + (if free = [] then 1 else 0) ∧
      Partitioned width (s.allocate width newChunk 1) rest := by
  cases free with
  | nil =>
    have hreplenish : s.allocator.replenish width newChunk s.next =
        s.allocator.allocateOneChunk width newChunk s.next := by
      have hnone : s.allocator.linkedListOfFreeSlabs = none := h.linked
      rw [replenish, hnone]
    have hchunk := h.allocateOneChunk hwidth hfresh
    have hchunks : (s.allocator.allocateOneChunk width newChunk s.next).1.allocatedChunks =
        s.allocator.allocatedChunks ++ [newChunk] := rfl
    cases hslabs : (FreeList.slabs width newChunk NUMBER_OF_SLABS_PER_CHUNK).reverse with
    | nil =>
      have hlength := congrArg List.length hslabs
      rw [List.length_reverse, FreeList.length_slabs] at hlength
      exact absurd hlength (Nat.ne_of_gt NUMBER_OF_SLABS_PER_CHUNK_pos)
    | cons slab rest =>
      rw [hslabs] at hchunk
      rw [← hreplenish] at hchunk hchunks
      rw [allocate_eq hchunk.linked.1]
      refine ⟨slab, rest, rfl, rfl, ?_, hchunk.take _⟩
      rw [hchunks, List.length_append]
      rfl
  | cons slab rest =>
    have hreplenish : s.allocator.replenish width newChunk s.next = (s.allocator, s.next) := by
      have hsome : s.allocator.linkedListOfFreeSlabs = some slab := h.linked.1
      rw [replenish, hsome]
    have hhead : (s.allocator.replenish width newChunk s.next).1.linkedListOfFreeSlabs =
        some slab := by
      rw [hreplenish]
      exact h.linked.1
    rw [allocate_eq hhead, hreplenish]
    exact ⟨slab, rest, rfl, rfl, rfl, h.take _⟩

theorem deallocate (hwidth : 0 < width) (h : Partitioned width s free) (name : String)
    (hlive : slab ∈ s.live) : Partitioned width (s.deallocate name slab 1) (slab :: free) where
  fault := h.fault
  linked := by
    refine h.linked.push fun hmem => ?_
    exact (List.nodup_append.mp (h.nodup hwidth)).2.2 slab hlive slab hmem rfl
  perm := by
    have hback : (s.live.erase slab ++ slab :: free).Perm (s.live ++ free) :=
      List.perm_middle.trans ((List.perm_cons_erase hlive).symm.append_right free)
    exact hback.trans h.perm
  apart := h.apart

theorem write (hwidth : 0 < width) (h : Partitioned width s free) (hlive : slab ∈ s.live)
    (value : Option Nat) :
    Partitioned width { s with next := Function.update s.next slab value } free where
  fault := h.fault
  linked := by
    refine h.linked.update (fun hmem => ?_) value
    exact (List.nodup_append.mp (h.nodup hwidth)).2.2 slab hlive slab hmem rfl
  perm := h.perm
  apart := h.apart

end Partitioned

theorem Tight.allocate (h : Tight s) (hpartitioned : Partitioned width s free)
    (hlive : s'.live = slab :: s.live) (hpeak : s'.peak = max s.peak (s.live.length + 1))
    (hchunks : s'.allocator.allocatedChunks.length =
      s.allocator.allocatedChunks.length + if free = [] then 1 else 0) : Tight s' := by
  obtain ⟨hlive_le, hpeak_le, hlt_peak⟩ := h
  have hlength := hpartitioned.length_eq
  have hpos := NUMBER_OF_SLABS_PER_CHUNK_pos
  cases free with
  | nil =>
    rw [if_pos rfl] at hchunks
    rw [List.length_nil] at hlength
    constructor
    · rw [hlive, hpeak, List.length_cons]
      omega
    · rw [hpeak, hchunks, Nat.succ_mul]
      omega
    · rw [hpeak, hchunks, Nat.succ_mul]
      omega
  | cons head rest =>
    rw [if_neg (List.cons_ne_nil _ _), Nat.add_zero] at hchunks
    rw [List.length_cons] at hlength
    constructor
    · rw [hlive, hpeak, List.length_cons]
      omega
    · rw [hpeak, hchunks]
      omega
    · rw [hpeak, hchunks]
      omega

/-- What every step keeps. -/
def Sound (width : Nat) (s : State) : Prop := Tight s ∧ ∃ free, Partitioned width s free

theorem Sound.step (hwidth : 0 < width) (h : Sound width s) (hstep : Step width s s') :
    Sound width s' := by
  obtain ⟨htight, free, hpartitioned⟩ := h
  cases hstep with
  | allocate newChunk hfresh =>
    obtain ⟨slab, rest, hlive, hpeak, hchunks, hrest⟩ := hpartitioned.allocate hwidth hfresh
    exact ⟨htight.allocate hpartitioned hlive hpeak hchunks, rest, hrest⟩
  | deallocate name slab hlive =>
    refine ⟨⟨?_, htight.peak_le, htight.lt_peak⟩, _, hpartitioned.deallocate hwidth name hlive⟩
    exact Nat.le_trans (List.length_erase_le) htight.live_le
  | write slab value hlive =>
    exact ⟨⟨htight.live_le, htight.peak_le, htight.lt_peak⟩, free,
      hpartitioned.write hwidth hlive value⟩

/-- In every run, whatever is written to the live slabs: each slab of a chunk is either live or in
the free list, once, and no two of them overlap; so `allocate` does not return a live slab, and no
slab is lost. There are as many chunks as the most live slabs need that there have ever been. -/
theorem slabs_partitioned (hwidth : 0 < width) (hr : Reaches (Step width) .initial s) :
    s.fault = none ∧
    (∃ free, Linked s.next s.allocator.linkedListOfFreeSlabs free none ∧
      (s.live ++ free).Nodup ∧ (s.live ++ free).Perm (s.slabs width)) ∧
    (s.slabs width).Pairwise (Apart width) ∧
    s.allocator.allocatedChunks.length =
      (s.peak + NUMBER_OF_SLABS_PER_CHUNK - 1) / NUMBER_OF_SLABS_PER_CHUNK := by
  have hsound : Sound width s :=
    hr.invariant ⟨tight_initial, [], partitioned_initial⟩ fun _ _ h hstep => h.step hwidth hstep
  obtain ⟨⟨_, hpeak_le, hlt_peak⟩, free, hpartitioned⟩ := hsound
  refine ⟨hpartitioned.fault, ⟨free, hpartitioned.linked, hpartitioned.nodup hwidth,
    hpartitioned.perm⟩, hpartitioned.apart, ?_⟩
  refine (Nat.div_eq_of_lt_le ?_ ?_).symm
  · omega
  · rw [Nat.succ_mul]
    omega

/-- The first slab is the last one of the first chunk. -/
theorem slabs_partitioned_first_chunk :
    (State.initial.allocate 8 0 1).allocator.allocatedChunks.length = 1 := by
  have hfresh : State.initial.Fresh 8 0 := by
    intro a _ b hb
    cases hb
  obtain ⟨_, _, _, hpeak, _, _⟩ := partitioned_initial.allocate (by decide) hfresh
  have hlength := (slabs_partitioned (by decide) (.single (.allocate 0 hfresh))).2.2.2
  rw [hlength, hpeak]
  simp [State.initial, NUMBER_OF_SLABS_PER_CHUNK]

end SimpleSlabAllocator

end XubinhServer

import Mathlib.Data.Nat.Size
import XubinhServer.SlabAllocator

/-! Slabs for strings. Small blocks come from twelve free lists, one for each power of two; larger
blocks come from `malloc`. -/
namespace XubinhServer.StaticSimpleThreadLocalStringSlabAllocator

open FreeList SlabAllocator

/-- `__builtin_clzll`, for a number of 64 bits that is not zero. -/
def countLeadingZeros (x : Nat) : Nat := 64 - x.size

/-- `alignment::get_next_power_of_2`. The difference is an `int`, and becomes a `size_t`. -/
def getNextPowerOf2 (n : Nat) : Nat :=
  ((32 - (countLeadingZeros (n - 1) : Int)) % 2 ^ 64).toNat

/-- The `thread_local` members, and the memory that the lists go through. -/
structure Lists where
  linkedListsOfFreeSlabs : Fin 12 → Option Nat
  allocatedChunks : List Nat
  next : Memory

def Lists.new : Lists := ⟨fun _ => none, [], fun _ => none⟩

/-- The place of a list in the array of them. -/
def index (powerOf2 : Nat) : Except Fault (Fin 12) :=
  if h : powerOf2 < 12 then pure ⟨powerOf2, h⟩ else throw (.indexOutOfBounds powerOf2)

namespace Lists

/-- `newChunk` is what `aalloc` returns. -/
def allocateOneChunk (s : Lists) (powerOf2 newChunk : Nat) : Option Nat × Lists :=
  let slabSize := 1 <<< powerOf2
  let numberOfSlabs := 0x1000 >>> powerOf2
  let (currentNode, next) := carve slabSize numberOfSlabs newChunk none s.next
  (currentNode, { s with allocatedChunks := s.allocatedChunks ++ [newChunk], next := next })

section Exponent

variable (nextPowerOf2 : Nat → Nat)

/-- `memory` is what `malloc` or `aalloc` returns, where one of them is called. -/
def allocate (s : Lists) (n : Nat) (memory : Option Nat) :
    Except Fault (Option Nat × Lists) := do
  if n = 0 then throw .badAlloc
  if n > 2048 then pure (memory, s)
  else
    let powerOf2 := nextPowerOf2 (max n 32)
    let i ← index powerOf2
    let (chosenSlab, s) ← match s.linkedListsOfFreeSlabs i, memory with
      | some slab, _ => pure (some slab, s)
      | none, some newChunk => pure (s.allocateOneChunk powerOf2 newChunk)
      | none, none => throw (.abort "@xubinh_server::util::alignment::aalloc")
    let next ← readNext s.next chosenSlab
    pure (chosenSlab,
      { s with linkedListsOfFreeSlabs := Function.update s.linkedListsOfFreeSlabs i next })

def deallocate (s : Lists) (slab n : Nat) : Except Fault Lists := do
  if n = 0 then
    throw (.abort ("@xubinh_server::util::StaticSimpleThreadLocalStringSlabAllocator::" ++
      "deallocate: zero slab size\n"))
  if n > 2048 then pure s
  else
    let i ← index (nextPowerOf2 (max n 32))
    pure { s with
      next := Function.update s.next slab (s.linkedListsOfFreeSlabs i)
      linkedListsOfFreeSlabs := Function.update s.linkedListsOfFreeSlabs i (some slab) }

end Exponent

end Lists

/-- A block that has been returned: the size of its request, and the power of two that has been
chosen for it if it is a slab. -/
structure Block where
  address : Nat
  size : Nat
  powerOf2 : Option Nat
  deriving DecidableEq, Repr

/-- The bytes that belong to a block. -/
def Block.length (b : Block) : Nat :=
  match b.powerOf2 with
  | none => b.size
  | some powerOf2 => 2 ^ powerOf2

/-- Two ranges of bytes do not meet. -/
def Disjoint (a m b n : Nat) : Prop := a + m ≤ b ∨ b + n ≤ a

inductive Call where
  | allocate (n : Nat) (memory : Option Nat)
  | deallocate (slab n : Nat)
  deriving DecidableEq, Repr

def Call.size : Call → Nat
  | .allocate n _ => n
  | .deallocate _ n => n

/-- A thread's lists, and its live blocks. -/
structure Heap where
  lists : Lists
  live : List Block

namespace Heap

def initial : Heap := ⟨.new, []⟩

/-- `[a, a + n)` is neither in a chunk nor in a live block of `malloc`. -/
def Unused (h : Heap) (a n : Nat) : Prop :=
  (∀ chunk ∈ h.lists.allocatedChunks, Disjoint a n chunk 4096) ∧
  ∀ b ∈ h.live, b.powerOf2 = none → Disjoint a n b.address b.size

/-- What a caller does, and what `malloc` and `aligned_alloc` do: a block is returned once, with the
size of its request, and memory that comes from them is not in use. `aalloc` ends the process where
`aligned_alloc` fails. -/
def Allows (h : Heap) : Call → Prop
  | .allocate n memory => 0 < n ∧ (n ≤ 2048 → memory ≠ none) ∧
      ∀ a, memory = some a → h.Unused a (if n > 2048 then n else 4096)
  | .deallocate slab n => ∃ b ∈ h.live, b.address = slab ∧ b.size = n

section Exponent

variable (nextPowerOf2 : Nat → Nat)

/-- The power of two that is chosen for a size. -/
def chosen (n : Nat) : Option Nat := if n > 2048 then none else some (nextPowerOf2 (max n 32))

def call (h : Heap) : Call → Except Fault Heap
  | .allocate n memory => do
    let (slab, lists) ← h.lists.allocate nextPowerOf2 n memory
    pure ⟨lists, (slab.map fun a => ⟨a, n, chosen nextPowerOf2 n⟩).toList ++ h.live⟩
  | .deallocate slab n => do
    let lists ← h.lists.deallocate nextPowerOf2 slab n
    pure ⟨lists, h.live.eraseP fun b => b.address = slab ∧ b.size = n⟩

/-- Each call is one that the heap allows. -/
def Proper (h : Heap) : List Call → Prop
  | [] => True
  | c :: rest => h.Allows c ∧ ∀ h', h.call nextPowerOf2 c = .ok h' → h'.Proper rest

end Exponent

/-- The live blocks are long enough, in a chunk or blocks of `malloc`, and do not meet. -/
def Good (h : Heap) : Prop :=
  (∀ b ∈ h.live, b.size ≤ b.length ∧ (b.powerOf2 = none ∨
    ∃ chunk ∈ h.lists.allocatedChunks, chunk ≤ b.address ∧
      b.address + b.length ≤ chunk + 4096)) ∧
  h.live.Pairwise fun b c => Disjoint b.address b.length c.address c.length

section Exponent

variable (nextPowerOf2 : Nat → Nat)

/-- The power of two at deallocation is the one at allocation. -/
def SameClass (h : Heap) : Call → Prop
  | .allocate _ _ => True
  | .deallocate slab n => ∀ b ∈ h.live, b.address = slab → b.size = n →
      b.powerOf2 = chosen nextPowerOf2 n

/-- No call fails, and every state on the way is good. -/
def Sound (h : Heap) : List Call → Prop
  | [] => h.Good
  | c :: rest => h.Good ∧ h.SameClass nextPowerOf2 c ∧
      ∃ h', h.call nextPowerOf2 c = .ok h' ∧ h'.Sound rest

end Exponent

end Heap

/-- The leading zeros are those of 64 bits, but they are taken from 32. -/
theorem twelve_le_getNextPowerOf2 {n : Nat} (hn : n ≤ 2048) : 12 ≤ getNextPowerOf2 n := by
  have hsize : (n - 1).size ≤ 11 := Nat.size_le.mpr (by omega)
  simp only [getNextPowerOf2, countLeadingZeros]
  omega

theorem index_getNextPowerOf2 {n : Nat} (hn : n ≤ 2048) :
    index (getNextPowerOf2 n) = .error (.indexOutOfBounds (getNextPowerOf2 n)) := by
  have htwelve := twelve_le_getNextPowerOf2 hn
  rw [index, dif_neg (by omega)]
  rfl

namespace Heap

variable {h h' : Heap} {c : Call} {b : Block} {n slab : Nat} {memory : Option Nat}

/-- A call for a small block reads past the end of the array of lists. -/
theorem call_small (hc : c.size ≤ 2048) (h' : Heap) : h.call getNextPowerOf2 c ≠ .ok h' := by
  have hindex := index_getNextPowerOf2 (n := max c.size 32) (by omega)
  cases c with
  | allocate n memory =>
    simp only [Call.size] at hc hindex
    by_cases hn : n = 0
    · simp [call, Lists.allocate, hn, bind, Except.bind, throw, throwThe, MonadExceptOf.throw]
    · simp [call, Lists.allocate, hn, Nat.not_lt.mpr hc, hindex, bind, Except.bind]
  | deallocate slab n =>
    simp only [Call.size] at hc hindex
    by_cases hn : n = 0
    · simp [call, Lists.deallocate, hn, bind, Except.bind, throw, throwThe, MonadExceptOf.throw]
    · simp [call, Lists.deallocate, hn, Nat.not_lt.mpr hc, hindex, bind, Except.bind]

theorem Sound.large {calls : List Call} (hsound : h.Sound getNextPowerOf2 calls) :
    ∀ c ∈ calls, 2048 < c.size := by
  induction calls generalizing h with
  | nil => exact nofun
  | cons c rest ih =>
    obtain ⟨_, _, h', hcall, hrest⟩ := hsound
    intro d hd
    cases List.mem_cons.mp hd with
    | inl heq =>
      subst heq
      by_contra hsmall
      exact call_small (Nat.not_lt.mp hsmall) h' hcall
    | inr hd => exact ih hrest d hd

/-- Every live block is one of `malloc`. -/
structure Large (h : Heap) : Prop where
  malloc : ∀ b ∈ h.live, b.powerOf2 = none ∧ 2048 < b.size
  apart : h.live.Pairwise fun b c => Disjoint b.address b.length c.address c.length

theorem length_of_malloc (hb : b.powerOf2 = none) : b.length = b.size := by
  rw [Block.length, hb]

theorem Large.good (hlarge : h.Large) : h.Good := by
  refine ⟨fun b hb => ?_, hlarge.apart⟩
  obtain ⟨hmalloc, _⟩ := hlarge.malloc b hb
  exact ⟨(length_of_malloc hmalloc).ge, .inl hmalloc⟩

theorem Large.allocate (hlarge : h.Large) (hn : 2048 < n)
    (hallows : h.Allows (.allocate n memory)) :
    ∃ h', h.call getNextPowerOf2 (.allocate n memory) = .ok h' ∧ h'.Large := by
  obtain ⟨hpos, _, hunused⟩ := hallows
  have hcall : h.call getNextPowerOf2 (.allocate n memory) =
      .ok ⟨h.lists, (memory.map fun a => ⟨a, n, none⟩).toList ++ h.live⟩ := by
    simp [call, Lists.allocate, chosen, hn, hpos.ne', bind, Except.bind, pure, Except.pure]
  refine ⟨_, hcall, ?_⟩
  cases memory with
  | none => exact hlarge
  | some a =>
    obtain ⟨_, hlive⟩ := hunused a rfl
    rw [if_pos hn] at hlive
    constructor
    · intro b hb
      cases List.mem_cons.mp hb with
      | inl heq =>
        subst heq
        exact ⟨rfl, hn⟩
      | inr hb => exact hlarge.malloc b hb
    · refine List.Pairwise.cons (fun b hb => ?_) hlarge.apart
      obtain ⟨hmalloc, _⟩ := hlarge.malloc b hb
      rw [length_of_malloc hmalloc]
      exact hlive b hb hmalloc

theorem Large.deallocate (hlarge : h.Large) (hn : 2048 < n) :
    ∃ h', h.call getNextPowerOf2 (.deallocate slab n) = .ok h' ∧ h'.Large := by
  have hcall : h.call getNextPowerOf2 (.deallocate slab n) =
      .ok ⟨h.lists, h.live.eraseP fun b => b.address = slab ∧ b.size = n⟩ := by
    have hpos : n ≠ 0 := by omega
    simp [call, Lists.deallocate, hn, hpos, bind, Except.bind, pure, Except.pure]
  refine ⟨_, hcall, ?_, ?_⟩
  · exact fun b hb => hlarge.malloc b (List.mem_of_mem_eraseP hb)
  · exact hlarge.apart.sublist (List.eraseP_sublist)

theorem Large.sound {calls : List Call} (hlarge : h.Large)
    (hproper : h.Proper getNextPowerOf2 calls) (hsizes : ∀ c ∈ calls, 2048 < c.size) :
    h.Sound getNextPowerOf2 calls := by
  induction calls generalizing h with
  | nil => exact hlarge.good
  | cons c rest ih =>
    obtain ⟨hallows, hrest⟩ := hproper
    have hsize := hsizes c List.mem_cons_self
    obtain ⟨h', hcall, hlarge'⟩ :
        ∃ h', h.call getNextPowerOf2 c = .ok h' ∧ h'.Large := by
      cases c with
      | allocate n memory => exact hlarge.allocate hsize hallows
      | deallocate slab n => exact hlarge.deallocate hsize
    refine ⟨hlarge.good, ?_, h', hcall, ?_⟩
    · cases c with
      | allocate n memory => trivial
      | deallocate slab n =>
        intro b hb _ hbsize
        obtain ⟨hmalloc, hbig⟩ := hlarge.malloc b hb
        rw [hmalloc, chosen, if_pos (hbsize ▸ hbig)]
    · exact ih hlarge' (hrest h' hcall) fun d hd => hsizes d (List.mem_cons_of_mem c hd)

/-- The allocator does what it should in exactly the histories of large blocks, which `malloc`
serves. -/
theorem sound_iff_large (calls : List Call) (hproper : initial.Proper getNextPowerOf2 calls) :
    initial.Sound getNextPowerOf2 calls ↔ ∀ c ∈ calls, 2048 < c.size :=
  ⟨Sound.large, Large.sound ⟨nofun, .nil⟩ hproper⟩

/-- A large block comes and goes. -/
theorem sound_iff_large_malloc :
    initial.Sound getNextPowerOf2 [.allocate 4096 (some 65536), .deallocate 65536 4096] := by
  have hproper : initial.Proper getNextPowerOf2
      [.allocate 4096 (some 65536), .deallocate 65536 4096] := by
    refine ⟨⟨by decide, nofun, fun a _ => ⟨nofun, nofun⟩⟩, fun h' hcall => ?_⟩
    cases hcall
    exact ⟨⟨⟨65536, 4096, none⟩, by simp [initial, chosen], rfl, rfl⟩, fun _ _ => trivial⟩
  exact (sound_iff_large _ hproper).mpr (by simp [Call.size])

/-- The first call for a single byte reads element `2 ^ 64 - 27` of an array of twelve. -/
theorem not_sound_one_byte :
    initial.Proper getNextPowerOf2 [.allocate 1 (some 65536)] ∧
    initial.call getNextPowerOf2 (.allocate 1 (some 65536)) =
      .error (.indexOutOfBounds (2 ^ 64 - 27)) ∧
    ¬initial.Sound getNextPowerOf2 [.allocate 1 (some 65536)] := by
  refine ⟨⟨⟨by decide, nofun, fun a _ => ⟨nofun, nofun⟩⟩, fun _ _ => trivial⟩, ?_,
    fun hsound => ?_⟩
  · have hpower : getNextPowerOf2 32 = 2 ^ 64 - 27 := by decide
    simp [call, Lists.allocate, index, hpower, bind, Except.bind, throw, throwThe,
      MonadExceptOf.throw]
  · exact absurd (hsound.large (.allocate 1 (some 65536)) List.mem_cons_self) (by decide)

end Heap

end XubinhServer.StaticSimpleThreadLocalStringSlabAllocator

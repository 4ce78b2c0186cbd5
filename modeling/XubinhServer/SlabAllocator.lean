import XubinhServer.Lib.FreeList

/-! What the slab allocators share: memory that free slabs are linked through, and the ways in
which a call can end early. -/
namespace XubinhServer.SlabAllocator

/-- An access through a null pointer, a `LinkedListNode *` past the end of an array of them, a
`std::bad_alloc`, or an `abort` behind a message. -/
inductive Fault where
  | nullPointer
  | indexOutOfBounds (index : Nat)
  | badAlloc
  | abort (message : String)
  deriving DecidableEq, Repr

/-- The first words of the slabs, where the `next` pointers of the free ones are. -/
abbrev Memory := Nat → Option Nat

/-- `pointer->next = value`. -/
def writeNext (next : Memory) (pointer value : Option Nat) : Except Fault Memory :=
  match pointer with
  | none => throw .nullPointer
  | some slab => pure (Function.update next slab value)

/-- `pointer->next`. -/
def readNext (next : Memory) (pointer : Option Nat) : Except Fault (Option Nat) :=
  match pointer with
  | none => throw .nullPointer
  | some slab => pure (next slab)

end XubinhServer.SlabAllocator

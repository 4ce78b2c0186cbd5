import Mathlib.Order.CompletePartialOrder
import Mathlib.Order.Interval.Set.Disjoint
import XubinhServer.TcpBuffer.ByteQueue

/-! The `memcpy` by which a full buffer moves its unread bytes to the front: the ranges that it
reads and writes have no byte in common exactly as long as at least half of the bytes written have
been read. -/
namespace XubinhServer

/-- A call of `memcpy`, in offsets from one pointer. -/
structure Memcpy where
  destination : Nat
  source : Nat
  count : Nat
  deriving DecidableEq, Repr

namespace Memcpy

def written (m : Memcpy) : Set Nat := Set.Ico m.destination (m.destination + m.count)

def read (m : Memcpy) : Set Nat := Set.Ico m.source (m.source + m.count)

/-- The bytes afterwards, as if they were copied through a temporary. -/
def copy (m : Memcpy) (bytes : List UInt8) : List UInt8 :=
  bytes.take m.destination ++ (bytes.drop m.source).take m.count ++
    bytes.drop (m.destination + m.count)

theorem disjoint_iff (m : Memcpy) : Disjoint m.read m.written ↔
    m.count = 0 ∨ m.source + m.count ≤ m.destination ∨ m.destination + m.count ≤ m.source := by
  rw [read, written, Set.Ico_disjoint_Ico]
  omega

end Memcpy

namespace StoredTcpBuffer

/-- The `memcpy` of `makeSpace`, in the branch that has one. -/
def compaction (b : StoredTcpBuffer) (size : Nat) : Option Memcpy :=
  let directlyExtendableSize := sizeSub b.buffer.capacity b.writeOffset
  if size ≤ directlyExtendableSize then none
  else if size ≤ (directlyExtendableSize + b.readOffset) % 2 ^ 64 then
    some ⟨0, b.readOffset, sizeSub b.writeOffset b.readOffset⟩
  else none

/-- `P` holds of every operation of the run in the state it is made in. -/
def Throughout (P : StoredTcpBuffer → Operation → Prop) : StoredTcpBuffer → List Operation → Prop
  | _, [] => True
  | b, operation :: rest => P b operation ∧ ∀ c, b.step operation = .ok c → Throughout P c rest

/-- The `memcpy` of an append, where it has one, reads no byte that it writes. -/
def CopiesApart (b : StoredTcpBuffer) (operation : Operation) : Prop :=
  ∀ data growth m, operation = .append data growth → b.compaction data.length = some m →
    Disjoint m.read m.written

/-- At least half of the bytes written have been read when data is appended that fits into the
string only with the bytes already read taken out. -/
def HalfRead (b : StoredTcpBuffer) (operation : Operation) : Prop :=
  ∀ data growth, operation = .append data growth →
    b.buffer.capacity < b.writeOffset + data.length →
    b.writeOffset + data.length ≤ b.buffer.capacity + b.readOffset →
    b.writeOffset ≤ 2 * b.readOffset

section Specs

variable {b : StoredTcpBuffer} {size : Nat} {growth : Growth} {m : Memcpy}

/-- `makeSpace` makes the copy that `compaction` names. -/
theorem makeSpace_of_compaction (h : b.compaction size = some m) (hfresh : b.Fresh) :
    b.makeSpace size growth = (do
      let buffer ← { b.buffer with contents := m.copy b.buffer.contents }.resize
        (m.count + size) growth
      pure (m.count, { b with buffer, readOffset := 0, writeOffset := m.count + size })) := by
  simp only [compaction] at h
  split at h
  · cases h
  · rename_i hend
    split at h
    · rename_i hcompact
      cases h
      simp only [makeSpace, if_neg hend, if_pos hcompact, hfresh, not_true_eq_false, if_false,
        Memcpy.copy, List.take_zero, List.nil_append, Nat.zero_add]
    · cases h

/-- Where `compaction` names none, `makeSpace` only grows the string at its end. -/
theorem makeSpace_of_no_compaction (h : b.compaction size = none) :
    b.makeSpace size growth = (do
      let buffer ← b.buffer.resize (b.writeOffset + size) growth
      let ptr := if size ≤ sizeSub b.buffer.capacity b.writeOffset then b.volatileBufferBeginPtr
        else some buffer.storage
      let writeOffset := b.writeOffset + size
      pure (b.writeOffset, { b with buffer, volatileBufferBeginPtr := ptr, writeOffset })) := by
  simp only [compaction] at h
  by_cases hend : size ≤ sizeSub b.buffer.capacity b.writeOffset
  · simp only [makeSpace, if_pos hend]
  · rw [if_neg hend] at h
    split at h
    · cases h
    · rename_i hcompact
      simp only [makeSpace, if_neg hend, if_neg hcompact]

theorem Valid.compaction_eq (h : Valid b) (size : Nat) :
    b.compaction size =
      if b.buffer.capacity < b.writeOffset + size ∧
          b.writeOffset + size ≤ b.buffer.capacity + b.readOffset then
        some ⟨0, b.readOffset, b.writeOffset - b.readOffset⟩
      else none := by
  have hread := h.read
  have hroom := h.room
  have hshort := h.short
  simp only [StoredString.maxSize] at hshort
  have hsub : sizeSub b.buffer.capacity b.writeOffset = b.buffer.capacity - b.writeOffset :=
    if_pos hroom
  have hunread : sizeSub b.writeOffset b.readOffset = b.writeOffset - b.readOffset := if_pos hread
  have hsum : (b.buffer.capacity - b.writeOffset + b.readOffset) % 2 ^ 64 =
      b.buffer.capacity - b.writeOffset + b.readOffset := Nat.mod_eq_of_lt (by omega)
  simp only [compaction, hsub, hunread, hsum]
  split
  · rw [if_neg (by omega)]
  · split
    · rw [if_pos (by omega)]
    · rw [if_neg (by omega)]

/-- One append of a valid buffer copies apart if and only if half of the bytes have been read. -/
theorem Valid.copiesApart_iff (h : Valid b) (operation : Operation) :
    CopiesApart b operation ↔ HalfRead b operation := by
  have hread := h.read
  have hroom := h.room
  constructor
  · intro hapart data growth heq hlong hfits
    have hcompaction : b.compaction data.length =
        some ⟨0, b.readOffset, b.writeOffset - b.readOffset⟩ := by
      rw [h.compaction_eq, if_pos ⟨hlong, hfits⟩]
    have hdisjoint := (Memcpy.disjoint_iff _).mp (hapart data growth _ heq hcompaction)
    simp only at hdisjoint
    omega
  · intro hhalf data growth m heq hcompaction
    rw [h.compaction_eq] at hcompaction
    split at hcompaction
    · rename_i hbounds
      cases hcompaction
      have hle := hhalf data growth heq hbounds.1 hbounds.2
      rw [Memcpy.disjoint_iff]
      right
      right
      simp only
      omega
    · cases hcompaction

/-- No operation breaks a valid buffer, not even a number of bytes that makes the sum of offsets
wrap. -/
theorem Valid.of_step {c : StoredTcpBuffer} {operation : Operation} (h : Valid b)
    (hc : b.step operation = .ok c) : Valid c := by
  cases operation with
  | append data growth =>
    simp only [StoredTcpBuffer.step] at hc
    cases h.append data growth with
    | inl herror =>
      rw [hc] at herror
      cases herror
    | inr hok =>
      obtain ⟨d, hd, hvalid, _⟩ := hok
      rw [hc] at hd
      cases hd
      exact hvalid
  | forwardReadPosition n =>
    cases hc
    exact ⟨h.size, Nat.min_le_right _ _, h.room, h.short, h.fresh⟩
  | reset storage =>
    cases hc
    exact (h.reset storage).1

/-- Two conditions that agree on valid buffers agree throughout a run from one. -/
theorem Valid.throughout_congr {P Q : StoredTcpBuffer → Operation → Prop} (h : Valid b)
    (hPQ : ∀ b operation, Valid b → (P b operation ↔ Q b operation))
    (operations : List Operation) : Throughout P b operations ↔ Throughout Q b operations := by
  induction operations generalizing b with
  | nil => exact Iff.rfl
  | cons operation rest ih =>
    have hhead := hPQ b operation h
    have htail : (∀ c, b.step operation = .ok c → Throughout P c rest) ↔
        ∀ c, b.step operation = .ok c → Throughout Q c rest :=
      forall₂_congr fun c hc => ih (h.of_step hc)
    rw [Throughout, Throughout, hhead, htail]

end Specs

/-- Over a run from a new buffer, the ranges of every `memcpy` of a compaction are disjoint if and
only if at least half of the bytes written have been read at each of them. -/
theorem copiesApart_iff_halfRead (storage : Nat) (operations : List Operation) :
    Throughout CopiesApart (new storage) operations ↔
      Throughout HalfRead (new storage) operations :=
  (valid_new storage).throughout_congr (fun _ operation h => h.copiesApart_iff operation) operations

/-- Fifteen bytes fill a new buffer, one of them is read, and one more is appended: fourteen bytes
are copied to the offset before their own. -/
theorem not_copiesApart_of_one_read :
    ¬Throughout CopiesApart (new 0) [.append (List.replicate 15 97) ⟨0, 0⟩,
      .forwardReadPosition 1, .append [98] ⟨0, 0⟩] := by
  intro hrun
  obtain ⟨_, hrun⟩ := hrun
  obtain ⟨_, hrun⟩ := hrun _ rfl
  obtain ⟨hapart, _⟩ := hrun _ rfl
  have hdisjoint := hapart [98] ⟨0, 0⟩ ⟨0, 1, 14⟩ rfl (by decide)
  rw [Memcpy.disjoint_iff] at hdisjoint
  revert hdisjoint
  decide

end StoredTcpBuffer

end XubinhServer

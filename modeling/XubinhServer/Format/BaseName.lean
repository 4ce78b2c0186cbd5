import XubinhServer.Format

/-! The base name of a path: two recursions that go backwards to the last slash. -/
namespace XubinhServer.Format

/-- The offset of the pointer that `_get_base_name_of_path` returns. -/
def baseNameOfPathFrom (path : List UInt8) : (currentOffset : Nat) → Nat
  | 0 => 0
  | offset + 1 => if path[offset]? = some 47 then offset + 1 else baseNameOfPathFrom path offset

def baseNameLengthOfPathFrom (path : List UInt8) (totalLength : Nat) : (currentOffset : Nat) → Nat
  | 0 => totalLength
  | offset + 1 =>
    if path[offset]? = some 47 then totalLength - (offset + 1)
    else baseNameLengthOfPathFrom path totalLength offset

def getBaseNameOfPath (path : List UInt8) (length : Nat) : Nat := baseNameOfPathFrom path length

def getBaseNameLengthOfPath (path : List UInt8) (length : Nat) : Nat :=
  baseNameLengthOfPathFrom path length length

/-- The text behind the last slash, or the whole path where there is none. -/
def IsBaseName (path name : List UInt8) : Prop :=
  47 ∉ name ∧ (name = path ∨ ∃ directory, path = directory ++ 47 :: name)

variable {path : List UInt8} {offset : Nat}

/-- Pointer and length are of the same text, wherever the recursions are. -/
theorem baseNameLengthOfPathFrom_eq (path : List UInt8) (totalLength offset : Nat) :
    baseNameLengthOfPathFrom path totalLength offset =
      totalLength - baseNameOfPathFrom path offset := by
  induction offset with
  | zero => rfl
  | succ offset ih =>
    rw [baseNameLengthOfPathFrom, baseNameOfPathFrom]
    split
    · rfl
    · exact ih

theorem baseNameOfPathFrom_le (path : List UInt8) (offset : Nat) :
    baseNameOfPathFrom path offset ≤ offset := by
  induction offset with
  | zero => exact Nat.le_refl 0
  | succ offset ih =>
    rw [baseNameOfPathFrom]
    split
    · exact Nat.le_refl _
    · exact Nat.le_succ_of_le ih

/-- In front of the result is a slash, if anything. -/
theorem slash_of_baseNameOfPathFrom (hpos : 0 < baseNameOfPathFrom path offset) :
    path[baseNameOfPathFrom path offset - 1]? = some 47 := by
  induction offset with
  | zero => exact absurd hpos (Nat.lt_irrefl 0)
  | succ offset ih =>
    rw [baseNameOfPathFrom] at hpos ⊢
    split
    · rename_i hslash
      exact hslash
    · rename_i hother
      rw [if_neg hother] at hpos
      exact ih hpos

/-- Between the result and the offset there is none. -/
theorem no_slash_of_baseNameOfPathFrom {i : Nat} (hi : baseNameOfPathFrom path offset ≤ i)
    (hlt : i < offset) : path[i]? ≠ some 47 := by
  induction offset with
  | zero => exact absurd hlt (Nat.not_lt_zero i)
  | succ offset ih =>
    rw [baseNameOfPathFrom] at hi
    split at hi
    · omega
    · rename_i hother
      cases Nat.lt_succ_iff_lt_or_eq.mp hlt with
      | inl hlt => exact ih hi hlt
      | inr hlast =>
        rw [hlast]
        exact hother

theorem isBaseName_getBaseNameOfPath (path : List UInt8) :
    IsBaseName path (path.drop (getBaseNameOfPath path path.length)) := by
  constructor
  · intro hmem
    obtain ⟨i, hi⟩ := List.mem_iff_getElem?.mp hmem
    rw [List.getElem?_drop] at hi
    have hlt : getBaseNameOfPath path path.length + i < path.length :=
      (List.getElem?_eq_some_iff.mp hi).1
    exact no_slash_of_baseNameOfPathFrom (Nat.le_add_right _ i) hlt hi
  · by_cases hpos : 0 < getBaseNameOfPath path path.length
    · right
      have hslash := slash_of_baseNameOfPathFrom hpos
      obtain ⟨hlt, hget⟩ := List.getElem?_eq_some_iff.mp hslash
      refine ⟨path.take (getBaseNameOfPath path path.length - 1), ?_⟩
      have hsplit := List.drop_eq_getElem_cons hlt
      have hnext : getBaseNameOfPath path path.length - 1 + 1 =
          getBaseNameOfPath path path.length := Nat.sub_add_cancel hpos
      rw [hget] at hsplit
      rw [← hnext]
      exact (List.take_append_drop _ path).symm.trans (congrArg _ hsplit)
    · left
      rw [Nat.eq_zero_of_not_pos hpos, List.drop_zero]

theorem getBaseNameLengthOfPath_eq (path : List UInt8) :
    getBaseNameLengthOfPath path path.length =
      (path.drop (getBaseNameOfPath path path.length)).length := by
  rw [List.length_drop]
  exact baseNameLengthOfPathFrom_eq path path.length path.length

end XubinhServer.Format

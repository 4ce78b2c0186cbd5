import Mathlib.Algebra.GroupWithZero.Nat
import Mathlib.Data.List.Flatten
import Mathlib.Data.List.Lemmas
import Mathlib.Data.List.Count
import Mathlib.Tactic.Common

/-! Pieces that are put into a buffer of a fixed capacity one after the other. A piece that does
not fit is left out, and a piece may ask for more room than it takes. -/
namespace XubinhServer

structure Piece (α : Type*) where
  text : List α
  room : Nat
  fits : text.length ≤ room

namespace Piece

variable {α : Type*}

/-- A piece that asks for just its own length. -/
def whole (text : List α) : Piece α := ⟨text, text.length, Nat.le_refl _⟩

def add (capacity : Nat) (data : List α) (piece : Piece α) : List α :=
  if data.length + piece.room ≤ capacity then data ++ piece.text else data

def pack (capacity : Nat) (data : List α) (pieces : List (Piece α)) : List α :=
  pieces.foldl (add capacity) data

/-- How far a buffer gets filled, from the lengths alone. -/
def level (capacity : Nat) (n : Nat) (pieces : List (Piece α)) : Nat :=
  pieces.foldl (fun n piece => if n + piece.room ≤ capacity then n + piece.text.length else n) n

variable {capacity n : Nat} {data : List α} {piece : Piece α} {pieces : List (Piece α)}

theorem pack_append (pieces rest : List (Piece α)) :
    pack capacity data (pieces ++ rest) = pack capacity (pack capacity data pieces) rest :=
  List.foldl_append

theorem length_add_le (hdata : data.length ≤ capacity) :
    (add capacity data piece).length ≤ capacity := by
  rw [add]
  split
  · rename_i hroom
    have hfits := piece.fits
    rw [List.length_append]
    omega
  · exact hdata

theorem length_pack_le (hdata : data.length ≤ capacity) :
    (pack capacity data pieces).length ≤ capacity := by
  induction pieces generalizing data with
  | nil => exact hdata
  | cons piece pieces ih => exact ih (length_add_le hdata)

theorem length_pack (capacity : Nat) (data : List α) (pieces : List (Piece α)) :
    (pack capacity data pieces).length = level capacity data.length pieces := by
  induction pieces generalizing data with
  | nil => rfl
  | cons piece pieces ih =>
    have hadd : (add capacity data piece).length = if data.length + piece.room ≤ capacity then
        data.length + piece.text.length else data.length := by
      rw [add]
      split
      · exact List.length_append
      · rfl
    have hrest : (pack capacity (add capacity data piece) pieces).length =
        level capacity (add capacity data piece).length pieces := ih _
    exact hrest.trans (congrArg (level capacity · pieces) hadd)

/-- Each piece is there as a whole or not at all, and in the order of the pieces. -/
theorem exists_kept (capacity : Nat) (data : List α) (pieces : List (Piece α)) :
    ∃ kept : List (Piece α), kept.Sublist pieces ∧
      pack capacity data pieces = data ++ kept.flatMap text := by
  induction pieces generalizing data with
  | nil => exact ⟨[], List.Sublist.refl _, (List.append_nil data).symm⟩
  | cons piece pieces ih =>
    obtain ⟨kept, hkept, hpack⟩ := ih (add capacity data piece)
    by_cases hroom : data.length + piece.room ≤ capacity
    · refine ⟨piece :: kept, hkept.cons_cons piece, ?_⟩
      rw [add, if_pos hroom] at hpack
      rw [List.flatMap_cons, ← List.append_assoc, ← hpack, pack, List.foldl_cons, add,
        if_pos hroom]
      rfl
    · refine ⟨kept, hkept.cons piece, ?_⟩
      rw [add, if_neg hroom] at hpack
      rw [← hpack, pack, List.foldl_cons, add, if_neg hroom]
      rfl

theorem level_le (n : Nat) (pieces : List (Piece α)) :
    level capacity n pieces ≤ n + (pieces.map (·.text.length)).sum := by
  induction pieces generalizing n with
  | nil => exact Nat.le_refl n
  | cons piece pieces ih =>
    have hrest := ih (if n + piece.room ≤ capacity then n + piece.text.length else n)
    rw [List.map_cons, List.sum_cons, ← Nat.add_assoc]
    refine Nat.le_trans hrest (Nat.add_le_add_right ?_ _)
    split
    · exact Nat.le_refl _
    · exact Nat.le_add_right _ _

theorem not_mem_pack {terminator : α} (hdata : terminator ∉ data)
    (hpieces : ∀ piece ∈ pieces, terminator ∉ piece.text) :
    terminator ∉ pack capacity data pieces := by
  obtain ⟨kept, hkept, hpack⟩ := exists_kept capacity data pieces
  rw [hpack, List.mem_append, List.mem_flatMap]
  intro hmem
  cases hmem with
  | inl hmem => exact hdata hmem
  | inr hmem =>
    obtain ⟨piece, hpiece, hmem⟩ := hmem
    exact hpieces piece (hkept.subset hpiece) hmem

/-- The text ends with the terminator, which is nowhere else in it. -/
def Terminated [DecidableEq α] (terminator : α) (data : List α) : Prop :=
  data.getLast? = some terminator ∧ data.count terminator = 1

/-- A terminator behind pieces without it comes through unless they fill the buffer up. -/
theorem terminated_pack_iff [DecidableEq α] {terminator : α}
    (hpieces : ∀ piece ∈ pieces, terminator ∉ piece.text) :
    Terminated terminator (pack capacity [] (pieces ++ [whole [terminator]])) ↔
      level capacity 0 pieces ≠ capacity := by
  have hplain : terminator ∉ pack capacity [] pieces := not_mem_pack List.not_mem_nil hpieces
  have hlevel : (pack capacity [] pieces).length = level capacity 0 pieces := length_pack _ _ _
  have hle : (pack capacity [] pieces).length ≤ capacity := length_pack_le (Nat.zero_le _)
  have hlast : pack capacity [] (pieces ++ [whole [terminator]]) =
      if (pack capacity [] pieces).length + 1 ≤ capacity then
        pack capacity [] pieces ++ [terminator] else pack capacity [] pieces :=
    pack_append pieces [whole [terminator]]
  rw [hlast, ← hlevel]
  split
  · rename_i hroom
    have hcount : (pack capacity [] pieces ++ [terminator]).count terminator = 1 := by
      rw [List.count_append, List.count_eq_zero_of_not_mem hplain, List.count_singleton_self]
    exact ⟨fun _ => Nat.ne_of_lt hroom, fun _ => ⟨List.getLast?_concat, hcount⟩⟩
  · rename_i hroom
    constructor
    · intro hterminated
      have hcount := hterminated.2
      rw [List.count_eq_zero_of_not_mem hplain] at hcount
      cases hcount
    · intro hne
      omega

end Piece

end XubinhServer

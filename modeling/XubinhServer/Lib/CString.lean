import Mathlib.Tactic.Common
import Mathlib.Data.List.Infix

/-! The string functions of C and C++ on lists: a search for a pattern and a comparison of
bounded length. -/
namespace XubinhServer

/-- `std::search`: the first position where `pattern` starts, or the end. -/
def search {α : Type} [BEq α] (pattern : List α) : List α → Nat
  | [] => 0
  | a :: rest => if pattern.isPrefixOf (a :: rest) then 0 else search pattern rest + 1

/-- `strncmp` of two strings without their terminators. -/
def strncmp (a b : List UInt8) : (n : Nat) → Int
  | 0 => 0
  | n + 1 =>
    let x := a.headD 0
    let y := b.headD 0
    if x ≠ y then (x.toNat : Int) - y.toNat else if x = 0 then 0 else strncmp a.tail b.tail n

theorem search_eq_length_iff {α : Type} [BEq α] [LawfulBEq α] {pattern : List α}
    (hp : pattern ≠ []) (s : List α) : search pattern s = s.length ↔ ¬pattern <:+: s := by
  induction s with
  | nil => simpa [search] using hp
  | cons a rest ih =>
    have hstart : pattern.isPrefixOf (a :: rest) = true ↔ pattern <+: a :: rest :=
      List.isPrefixOf_iff_prefix
    rw [search, List.infix_cons_iff]
    split
    · rename_i hfound
      simp [hstart.mp hfound]
    · rename_i hmissing
      simp [mt hstart.mpr hmissing, ih]

/-- Against a string whose first `n` bytes are no terminators, `strncmp` compares prefixes. -/
theorem strncmp_eq_zero_iff {a b : List UInt8} {n : Nat} (hn : n ≤ b.length)
    (hb : 0 ∉ b.take n) : strncmp a b n = 0 ↔ b.take n <+: a := by
  have hsub : ∀ x y : UInt8, (x.toNat : Int) - y.toNat = 0 → x = y :=
    fun x y h => UInt8.toNat_inj.mp (by omega)
  induction n generalizing a b with
  | zero => simp [strncmp]
  | succ n ih =>
    cases b with
    | nil => simp at hn
    | cons y b =>
      simp only [List.take_succ_cons, List.mem_cons, not_or] at hb
      obtain ⟨hy, hb⟩ := hb
      cases a with
      | nil =>
        have hne : strncmp [] (y :: b) (n + 1) ≠ 0 := by
          simp only [strncmp, List.headD_nil, List.headD_cons, ne_eq, hy, not_false_eq_true,
            if_true]
          exact fun h => hy (hsub 0 y h)
        simp [hne]
      | cons x a =>
        rw [List.take_succ_cons, List.cons_prefix_cons]
        by_cases hxy : x = y
        · subst hxy
          simp only [strncmp, List.headD_cons, List.tail_cons, ne_eq, not_true_eq_false, if_false,
            Ne.symm hy, true_and]
          exact ih (by simpa using hn) hb
        · have hne : strncmp (x :: a) (y :: b) (n + 1) ≠ 0 := by
            simp only [strncmp, List.headD_cons, ne_eq, hxy, not_false_eq_true, if_true]
            exact fun h => hxy (hsub x y h)
          simp [hne, Ne.symm hxy]

end XubinhServer

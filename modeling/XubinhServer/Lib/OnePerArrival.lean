import Mathlib.Algebra.GroupWithZero.Nat
import Mathlib.Tactic.Common
import Mathlib.Data.List.Basic

/-! A stream of items arrives in pieces, and its reader takes at most one complete item for each
arrival. When does it keep up? -/
namespace XubinhServer.OnePerArrival

/-- How many of the items are complete once `n` units have arrived. -/
def completed : (lengths : List Nat) → (n : Nat) → Nat
  | [], _ => 0
  | l :: lengths, n => if l ≤ n then completed lengths (n - l) + 1 else 0

/-- How many items are left in the end, when `n` units of them are there in the beginning. -/
def left : (lengths : List Nat) → (n : Nat) → (arrivals : List Nat) → Nat
  | lengths, _, [] => lengths.length
  | [], _, _ :: _ => 0
  | l :: lengths, n, c :: arrivals =>
    if l ≤ n + c then left lengths (n + c - l) arrivals
    else left (l :: lengths) (n + c) arrivals

theorem left_le (lengths : List Nat) (n : Nat) (arrivals : List Nat) :
    left lengths n arrivals ≤ lengths.length := by
  induction arrivals generalizing lengths n with
  | nil => simp [left]
  | cons c arrivals ih =>
    cases lengths with
    | nil => simp [left]
    | cons l lengths =>
      rw [left]
      split
      · have h := ih lengths (n + c - l)
        rw [List.length_cons]
        omega
      · exact ih (l :: lengths) (n + c)

/-- After each arrival at least as many follow as items are incomplete; and there are enough
arrivals for the items that are complete in the beginning. -/
def Fits (lengths : List Nat) (n : Nat) (arrivals : List Nat) : Prop :=
  lengths.length ≤ arrivals.length ∧ ∀ j < arrivals.length,
    lengths.length ≤ completed lengths (n + (arrivals.take (j + 1)).sum) +
      (arrivals.length - (j + 1))

/-- The condition behind the first arrival, which brings an item to its end. -/
theorem fits_cons_of_le {l n c : Nat} {lengths arrivals : List Nat} (h : l ≤ n + c) :
    Fits (l :: lengths) n (c :: arrivals) ↔ Fits lengths (n + c - l) arrivals := by
  have hsum : ∀ k, completed (l :: lengths) (n + (c + k)) =
      completed lengths (n + c - l + k) + 1 := by
    intro k
    rw [completed, if_pos (by omega), show n + (c + k) - l = n + c - l + k by omega]
  simp only [Fits, List.length_cons, List.take_succ_cons, List.sum_cons, hsum]
  constructor
  · intro hboth
    obtain ⟨hlength, hall⟩ := hboth
    refine ⟨by omega, fun j hj => ?_⟩
    have hnext := hall (j + 1) (by omega)
    omega
  · intro hboth
    obtain ⟨hlength, hall⟩ := hboth
    refine ⟨by omega, fun j hj => ?_⟩
    cases j with
    | zero =>
      have hzero : 0 ≤ completed lengths (n + c - l + (arrivals.take 0).sum) := Nat.zero_le _
      omega
    | succ j =>
      have hnext := hall j (by omega)
      omega

/-- The condition behind the first arrival, which leaves the first item incomplete. -/
theorem fits_cons_of_lt {l n c : Nat} {lengths arrivals : List Nat} (h : n + c < l) :
    Fits (l :: lengths) n (c :: arrivals) ↔ Fits (l :: lengths) (n + c) arrivals := by
  have hzero : completed (l :: lengths) (n + c) = 0 := by
    rw [completed, if_neg (by omega)]
  have hassoc : ∀ k, n + (c + k) = n + c + k := fun k => by omega
  simp only [Fits, List.length_cons, List.take_succ_cons, List.sum_cons, hassoc]
  constructor
  · intro hboth
    obtain ⟨_, hall⟩ := hboth
    have hfirst := hall 0 (by omega)
    rw [List.take_zero, List.sum_nil, Nat.add_zero (n + c), hzero] at hfirst
    refine ⟨by omega, fun j hj => ?_⟩
    have hnext := hall (j + 1) (by omega)
    omega
  · intro hboth
    obtain ⟨hlength, hall⟩ := hboth
    refine ⟨by omega, fun j hj => ?_⟩
    cases j with
    | zero => omega
    | succ j =>
      have hnext := hall j (by omega)
      omega

theorem left_eq_zero_iff (lengths : List Nat) (n : Nat) (arrivals : List Nat) :
    left lengths n arrivals = 0 ↔ Fits lengths n arrivals := by
  induction arrivals generalizing lengths n with
  | nil => simp [left, Fits]
  | cons c arrivals ih =>
    cases lengths with
    | nil => simp [left, Fits]
    | cons l lengths =>
      rw [left]
      split
      · rename_i hle
        rw [ih, fits_cons_of_le hle]
      · rename_i hlt
        rw [ih, fits_cons_of_lt (by omega)]

/-- With nothing there in the beginning the condition is the same before the first arrival. -/
theorem fits_zero_iff {lengths arrivals : List Nat} (hpos : ∀ l ∈ lengths, 0 < l) :
    Fits lengths 0 arrivals ↔ ∀ j ≤ arrivals.length,
      lengths.length ≤ completed lengths (arrivals.take j).sum + (arrivals.length - j) := by
  have hzero : completed lengths 0 = 0 := by
    cases lengths with
    | nil => rfl
    | cons l lengths =>
      have hl := hpos l List.mem_cons_self
      rw [completed, if_neg (by omega)]
  constructor
  · intro h j hj
    obtain ⟨hlength, hall⟩ := h
    cases j with
    | zero => omega
    | succ j =>
      have hnext := hall j hj
      rwa [Nat.zero_add] at hnext
  · intro hall
    have hfirst := hall 0 (Nat.zero_le _)
    rw [List.take_zero, List.sum_nil, hzero] at hfirst
    refine ⟨by omega, fun j hj => ?_⟩
    rw [Nat.zero_add]
    exact hall (j + 1) hj

end XubinhServer.OnePerArrival

import Mathlib.Data.Nat.Digits.Lemmas

/-! Decimal numbers as bytes. -/
namespace XubinhServer.Decimal

def isDigit (b : UInt8) : Bool := 48 ≤ b && b ≤ 57

/-- The number that digits stand for. -/
def value (s : List UInt8) : Nat := s.foldl (fun n b => 10 * n + (b.toNat - 48)) 0

def digit (d : Nat) : UInt8 := UInt8.ofNat (48 + d)

/-- The digits of a number, without leading zeros. -/
def print (n : Nat) : List UInt8 :=
  if n = 0 then [48] else ((Nat.digits 10 n).map digit).reverse

/-- The canonical numeral of a number. -/
structure IsNumeral (n : Nat) (s : List UInt8) : Prop where
  digits : ∀ b ∈ s, isDigit b = true
  value : value s = n
  nonempty : s ≠ []
  noLeadingZero : s.head? = some 48 → s = [48]

variable {d n : Nat}

theorem toNat_digit (hd : d < 10) : (digit d).toNat = 48 + d := by
  rw [digit, UInt8.toNat_ofNat']
  exact Nat.mod_eq_of_lt (by omega)

theorem isDigit_digit (hd : d < 10) : isDigit (digit d) = true := by
  simp only [isDigit, Bool.and_eq_true, decide_eq_true_eq, UInt8.le_iff_toNat_le, toNat_digit hd]
  constructor
  · exact Nat.le_add_right 48 d
  · change 48 + d ≤ 57
    omega

theorem isDigit_of_mem_print {b : UInt8} (hb : b ∈ print n) : isDigit b = true := by
  rw [print] at hb
  split at hb
  · rw [List.mem_singleton.mp hb]
    rfl
  · obtain ⟨d, hd, rfl⟩ := List.mem_map.mp (List.mem_reverse.mp hb)
    exact isDigit_digit (Nat.digits_lt_base (by decide) hd)

theorem print_ne_nil (n : Nat) : print n ≠ [] := by
  rw [print]
  split
  · exact List.cons_ne_nil 48 []
  · rename_i hn
    intro hnil
    exact hn (Nat.digits_eq_nil_iff_eq_zero.mp
      (List.map_eq_nil_iff.mp (List.reverse_eq_nil_iff.mp hnil)))

theorem value_digits {l : List Nat} (hl : ∀ d ∈ l, d < 10) :
    value (l.map digit).reverse = Nat.ofDigits 10 l := by
  rw [value, List.foldl_reverse]
  induction l with
  | nil => rfl
  | cons d l ih =>
    rw [List.map_cons, List.foldr_cons, ih fun d hd => hl d (List.mem_cons_of_mem _ hd),
      toNat_digit (hl d List.mem_cons_self), Nat.ofDigits_cons]
    omega

/-- A number is read as it is printed. -/
theorem value_print (n : Nat) : value (print n) = n := by
  rw [print]
  split
  · rename_i hn
    rw [hn]
    rfl
  · rw [value_digits fun d hd => Nat.digits_lt_base (by decide) hd, Nat.ofDigits_digits]

/-- The digits in the order in which they are produced. -/
theorem reverse_print_of_lt (hn : n < 10) : (print n).reverse = [digit n] := by
  rw [print]
  split
  · rename_i hzero
    rw [hzero]
    rfl
  · rename_i hzero
    rw [List.reverse_reverse, Nat.digits_of_lt 10 n hzero hn]
    rfl

theorem reverse_print_of_le (hn : 10 ≤ n) :
    (print n).reverse = digit (n % 10) :: (print (n / 10)).reverse := by
  have hzero : n ≠ 0 := by omega
  have hrest : n / 10 ≠ 0 := by omega
  rw [print, if_neg hzero, print, if_neg hrest, List.reverse_reverse, List.reverse_reverse,
    Nat.digits_def' (by decide) (Nat.pos_of_ne_zero hzero), List.map_cons]

theorem head?_print_of_ne_zero (hn : n ≠ 0) : (print n).head? ≠ some 48 := by
  intro hhead
  rw [print, if_neg hn, List.head?_reverse, List.getLast?_map, Option.map_eq_some_iff] at hhead
  obtain ⟨d, hlast, hd⟩ := hhead
  have hmem : d ∈ Nat.digits 10 n := List.mem_of_getLast? hlast
  have hne : Nat.digits 10 n ≠ [] := List.ne_nil_of_mem hmem
  have hd_eq : (Nat.digits 10 n).getLast hne = d :=
    Option.some.inj ((List.getLast?_eq_some_getLast hne).symm.trans hlast)
  have hd_ne : d ≠ 0 := hd_eq ▸ Nat.getLast_digit_ne_zero 10 hn
  have hvalue := congrArg UInt8.toNat hd
  rw [toNat_digit (Nat.digits_lt_base (by decide) hmem)] at hvalue
  have h48 : (48 : UInt8).toNat = 48 := rfl
  omega

theorem isNumeral_print (n : Nat) : IsNumeral n (print n) where
  digits := fun _ => isDigit_of_mem_print
  value := value_print n
  nonempty := print_ne_nil n
  noLeadingZero := by
    intro hhead
    by_cases hn : n = 0
    · rw [hn]
      rfl
    · exact absurd hhead (head?_print_of_ne_zero hn)

/-- A number below a power of ten has no more digits than its exponent. -/
theorem length_print_le_of_lt {k : Nat} (hk : 0 < k) (hn : n < 10 ^ k) :
    (print n).length ≤ k := by
  rw [print]
  split
  · exact hk
  · rw [List.length_reverse, List.length_map]
    exact (Nat.digits_length_le_iff (by decide) n).mpr hn

end XubinhServer.Decimal

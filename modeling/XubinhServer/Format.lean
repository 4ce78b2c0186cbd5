import XubinhServer.Lib.Decimal
import XubinhServer.Lib.Memory
import XubinhServer.Process

/-! Numbers as text: the conversions of `util::Format`. -/
namespace XubinhServer.Format

open Memory

/-- The eight integer types, with the widths of LP64. -/
inductive IntegerType where
  | short
  | int
  | long
  | longLong
  | unsignedShort
  | unsignedInt
  | unsignedLong
  | unsignedLongLong
  deriving DecidableEq, Repr

namespace IntegerType

def bits : IntegerType → Nat
  | short | unsignedShort => 16
  | int | unsignedInt => 32
  | long | longLong | unsignedLong | unsignedLongLong => 64

def isSigned : IntegerType → Bool
  | short | int | long | longLong => true
  | unsignedShort | unsignedInt | unsignedLong | unsignedLongLong => false

def min (T : IntegerType) : Int := if T.isSigned then -2 ^ (T.bits - 1) else 0

def max (T : IntegerType) : Int := if T.isSigned then 2 ^ (T.bits - 1) - 1 else 2 ^ T.bits - 1

/-- What a conversion to the type leaves of a number. -/
def wrap (T : IntegerType) (n : Int) : Int :=
  if T.isSigned then n.bmod (2 ^ T.bits) else n % 2 ^ T.bits

/-- The values of the type. -/
abbrev Value (T : IntegerType) := { n : Int // T.min ≤ n ∧ n ≤ T.max }

end IntegerType

def log10Floor (integerValue : Nat) : Nat :=
  if integerValue < 10 then 0 else 1 + log10Floor (integerValue / 10)

/-- With one for a leading minus sign. -/
def getMaxNumberOfDecimalDigitsOfIntegerType (T : IntegerType) : Nat :=
  log10Floor T.max.toNat + 1 + 1

/-- With two for the prefix. -/
def getMinNumberOfCharsRequiredToRepresentPointer : Nat := 8 * 2 + 2

/-- `'0' + (input_value % 10)`, where `%` has the sign of the value. -/
def digitCharacter (inputValue : Int) : UInt8 := UInt8.ofInt (48 + inputValue.tmod 10)

theorem tdiv_toNat_lt {value : Int} (hmore : 0 < value.tdiv 10) :
    (value.tdiv 10).toNat < value.toNat := by
  cases value with
  | ofNat n =>
    have hdiv : (Int.ofNat n).tdiv 10 = (n / 10 : Nat) := rfl
    rw [hdiv] at hmore ⊢
    simp only [Int.ofNat_eq_natCast, Int.toNat_natCast]
    omega
  | negSucc n =>
    have hneg : (Int.negSucc n).tdiv 10 = -((n + 1) / 10 : Nat) := rfl
    omega

/-- The loop, which ends with the position behind the last digit. -/
def writeDigits (memory : List UInt8) (bufferPtr : Nat) (inputValue : Int) :
    Option (List UInt8 × Nat) :=
  (put memory bufferPtr (digitCharacter inputValue)).bind fun memory =>
    if 0 < inputValue.tdiv 10 then writeDigits memory (bufferPtr + 1) (inputValue.tdiv 10)
    else some (memory, bufferPtr + 1)
termination_by inputValue.toNat
decreasing_by exact tdiv_toNat_lt ‹_›

/-- The result is the length of the text. A write outside of the memory has none. -/
def convertIntegerToDecimalString (T : IntegerType) (memory : List UInt8) (outputBuffer : Nat)
    (inputValue : Int) : Option (List UInt8 × Nat) := do
  let isNegative := T.isSigned && decide (inputValue < 0)
  -- the most negative value is its own negation
  let inputValue := if isNegative then T.wrap (-inputValue) else inputValue
  let (memory, bufferPtr) ← writeDigits memory outputBuffer inputValue
  let (memory, bufferPtr) ←
    if isNegative then (put memory bufferPtr 45).map (·, bufferPtr + 1)
    else some (memory, bufferPtr)
  let memory ← put memory bufferPtr 0
  pure (reverse memory outputBuffer bufferPtr, bufferPtr - outputBuffer)

/-- What the loop writes. -/
def digits (inputValue : Int) : List UInt8 :=
  if 0 < inputValue.tdiv 10 then digitCharacter inputValue :: digits (inputValue.tdiv 10)
  else [digitCharacter inputValue]
termination_by inputValue.toNat
decreasing_by exact tdiv_toNat_lt ‹_›

/-- The text of a value. -/
def decimalString (T : IntegerType) (value : Int) : List UInt8 :=
  if T.isSigned && decide (value < 0) then 45 :: (digits (T.wrap (-value))).reverse
  else (digits value).reverse

def HEX_ALPHABET_TABLE : List UInt8 := bytes "0123456789abcdef"

/-- The letters of `count` nibbles, the lowest one first. -/
def hexLetters (value : Nat) : (count : Nat) → List UInt8
  | 0 => []
  | count + 1 => HEX_ALPHABET_TABLE.getD (value % 16) 0 :: hexLetters (value / 16) count

def NUMBER_OF_LETTERS_OF_POINTER_IN_HEX : Nat := 8 * 2

def convertPointerToHexString (pointer : UInt64) : List UInt8 :=
  bytes "0x" ++ (hexLetters pointer.toNat NUMBER_OF_LETTERS_OF_POINTER_IN_HEX).reverse

/-- The canonical numeral, with a minus sign in front of a negative one. -/
def IsSignedNumeral (value : Int) (text : List UInt8) : Prop :=
  if value < 0 then ∃ numeral, text = 45 :: numeral ∧ Decimal.IsNumeral value.natAbs numeral
  else Decimal.IsNumeral value.natAbs text

variable {T : IntegerType} {memory : List UInt8} {p n m : Nat} {value : Int}

theorem digits_of_pos (hmore : 0 < value.tdiv 10) :
    digits value = digitCharacter value :: digits (value.tdiv 10) := by
  rw [digits, if_pos hmore]

theorem digits_of_not_pos (hlast : ¬0 < value.tdiv 10) : digits value = [digitCharacter value] := by
  rw [digits, if_neg hlast]

theorem writeDigits_eq (hroom : p + (digits value).length ≤ memory.length) :
    writeDigits memory p value =
      some (splice memory p (digits value), p + (digits value).length) := by
  induction value using digits.induct generalizing memory p with
  | case1 value hmore ih =>
    rw [digits_of_pos hmore, List.length_cons] at hroom
    have hput : p + [digitCharacter value].length ≤ memory.length := by
      rw [List.length_singleton]
      omega
    have hlength := length_splice hput
    have hrest : writeDigits (splice memory p [digitCharacter value]) (p + 1) (value.tdiv 10) =
        some (splice (splice memory p [digitCharacter value]) (p + 1) (digits (value.tdiv 10)),
          p + 1 + (digits (value.tdiv 10)).length) := ih (by omega)
    have hjoin : splice (splice memory p [digitCharacter value]) (p + 1)
        (digits (value.tdiv 10)) = splice memory p (digits value) := by
      rw [digits_of_pos hmore]
      exact splice_splice (Nat.le_of_lt hput)
    have hend : p + 1 + (digits (value.tdiv 10)).length = p + (digits value).length := by
      rw [digits_of_pos hmore, List.length_cons]
      omega
    rw [writeDigits, put_eq hput, Option.bind_some, if_pos hmore, hrest, hjoin, hend]
  | case2 value hlast =>
    rw [digits_of_not_pos hlast, List.length_singleton] at hroom ⊢
    rw [writeDigits, put_eq hroom, Option.bind_some, if_neg hlast]

/-- The terminator behind the reversed text, and then the text in its order. -/
theorem terminate_eq {text : List UInt8} (hroom : p + text.length < memory.length) :
    ((put (splice memory p text) (p + text.length) 0).bind fun memory =>
      some (reverse memory p (p + text.length), p + text.length - p)) =
      some (splice memory p (text.reverse ++ [0]), text.length) := by
  have hp : p ≤ memory.length := by omega
  have hlength := length_splice (Nat.le_of_lt hroom)
  rw [put_eq (by omega), splice_splice hp, Option.bind_some, reverse_splice hp,
    Nat.add_sub_cancel_left]

/-- The conversion writes the text and a terminator, and nothing else. -/
theorem convertIntegerToDecimalString_eq
    (hroom : p + (decimalString T value).length < memory.length) :
    convertIntegerToDecimalString T memory p value =
      some (splice memory p (decimalString T value ++ [0]), (decimalString T value).length) := by
  have hp : p ≤ memory.length := by omega
  rw [convertIntegerToDecimalString]
  cases hnegative : T.isSigned && decide (value < 0) with
  | true =>
    let written := digits (T.wrap (-value))
    have htext : decimalString T value = (written ++ [45]).reverse := by
      rw [decimalString, if_pos hnegative, List.reverse_concat]
    have hend : p + (written ++ [45]).length = p + written.length + 1 := by
      rw [List.length_append]
      rfl
    rw [htext, List.length_reverse] at hroom ⊢
    have hdigits : p + written.length ≤ memory.length := by omega
    have hlength := length_splice hdigits
    have hsign : put (splice memory p written) (p + written.length) 45 =
        some (splice memory p (written ++ [45])) := by
      rw [put_eq (by omega), splice_splice hp]
    have hwritten : writeDigits memory p (T.wrap (-value)) =
        some (splice memory p written, p + written.length) := writeDigits_eq hdigits
    have hterminate := terminate_eq hroom
    rw [hend] at hterminate
    simp only [if_true, hwritten, hsign, Option.bind_eq_bind, Option.bind_some, Option.map_some]
    exact hterminate
  | false =>
    have htext : decimalString T value = (digits value).reverse := by
      rw [decimalString, hnegative]
      rfl
    rw [htext, List.length_reverse] at hroom ⊢
    have hwritten := writeDigits_eq (Nat.le_of_lt hroom)
    simp only [Bool.false_eq_true, if_false, hwritten, Option.bind_eq_bind, Option.bind_some]
    exact terminate_eq hroom

theorem digitCharacter_natCast (n : Nat) : digitCharacter n = Decimal.digit (n % 10) := by
  have hmod : (48 : Int) + (n : Int).tmod 10 = (48 + n % 10 : Nat) := rfl
  have hsmall : ((48 + n % 10 : Nat) : Int) % 2 ^ 8 = (48 + n % 10 : Nat) := by omega
  rw [digitCharacter, hmod, UInt8.ofInt, hsmall, Int.toNat_natCast]
  rfl

theorem digits_natCast (n : Nat) : digits n = (Decimal.print n).reverse := by
  induction n using Nat.strong_induction_on with
  | _ n ih =>
    have hdiv : (n : Int).tdiv 10 = (n / 10 : Nat) := rfl
    by_cases hn : n < 10
    · rw [digits_of_not_pos (by omega), digitCharacter_natCast, Decimal.reverse_print_of_lt hn,
        Nat.mod_eq_of_lt hn]
    · rw [digits_of_pos (by omega), hdiv, digitCharacter_natCast, ih (n / 10) (by omega),
        Decimal.reverse_print_of_le (Nat.not_lt.mp hn)]

/-- What is reserved for a number is enough for each smaller one. -/
theorem length_print_le (hn : n ≤ m) : (Decimal.print n).length ≤ log10Floor m + 1 := by
  induction n using Nat.strong_induction_on generalizing m with
  | _ n ih =>
    rw [← List.length_reverse]
    by_cases hone : n < 10
    · rw [Decimal.reverse_print_of_lt hone]
      exact Nat.succ_le_succ (Nat.zero_le _)
    · have hrest := ih (n / 10) (by omega) (Nat.div_le_div_right hn)
      rw [Decimal.reverse_print_of_le (Nat.not_lt.mp hone), List.length_cons, List.length_reverse,
        log10Floor, if_neg (by omega)]
      omega

theorem length_digits_le (hvalue : value ≤ m) : (digits value).length ≤ log10Floor m + 1 := by
  cases value with
  | ofNat n =>
    rw [Int.ofNat_eq_natCast, digits_natCast, List.length_reverse]
    exact length_print_le (Int.ofNat_le.mp hvalue)
  | negSucc n =>
    have hneg : (Int.negSucc n).tdiv 10 = -((n + 1) / 10 : Nat) := rfl
    rw [digits_of_not_pos (by omega), List.length_singleton]
    exact Nat.succ_le_succ (Nat.zero_le _)

theorem wrap_le_max (T : IntegerType) (n : Int) : T.wrap n ≤ T.max := by
  have hsigned : n.bmod (2 ^ T.bits) < ((2 ^ T.bits : Nat) + 1) / 2 := Int.bmod_lt (by positivity)
  have hunsigned : n % 2 ^ T.bits < 2 ^ T.bits := Int.emod_lt_of_pos n (by positivity)
  cases T <;> simp only [IntegerType.wrap, IntegerType.max, IntegerType.isSigned,
    IntegerType.bits, if_true, Bool.false_eq_true, if_false] at * <;> omega

theorem wrap_of_mem {n : Int} (hmin : T.min ≤ n) (hmax : n ≤ T.max) : T.wrap n = n := by
  cases T <;> simp only [IntegerType.wrap, IntegerType.min, IntegerType.max,
    IntegerType.isSigned, IntegerType.bits, if_true, Bool.false_eq_true, if_false] at * <;>
    first
    | exact Int.bmod_eq_of_le (by omega) (by omega)
    | exact Int.emod_eq_of_lt (by omega) (by omega)

theorem isSigned_of_neg (hmin : T.min ≤ value) (hneg : value < 0) : T.isSigned = true := by
  by_contra hunsigned
  rw [IntegerType.min, if_neg hunsigned] at hmin
  omega

/-- A negative value other than the smallest one has its negation in the type. -/
theorem wrap_neg (hneg : value < 0) (hmin : T.min < value) : T.wrap (-value) = value.natAbs := by
  have hsigned := isSigned_of_neg (Int.le_of_lt hmin) hneg
  have hmax : -value ≤ T.max := by
    rw [IntegerType.min, if_pos hsigned] at hmin
    rw [IntegerType.max, if_pos hsigned]
    omega
  have hnonpos : T.min ≤ 0 := by
    cases T <;> decide
  rw [wrap_of_mem (by omega) hmax]
  omega

theorem decimalString_of_neg (hsigned : T.isSigned = true) (hneg : value < 0) :
    decimalString T value = 45 :: (digits (T.wrap (-value))).reverse := by
  rw [decimalString, hsigned, decide_eq_true hneg]
  rfl

theorem decimalString_of_nonneg (hnonneg : 0 ≤ value) :
    decimalString T value = Decimal.print value.natAbs := by
  have hvalue : (digits value).reverse = Decimal.print value.natAbs := by
    obtain ⟨n, rfl⟩ := Int.eq_ofNat_of_zero_le hnonneg
    rw [digits_natCast, List.reverse_reverse, Int.natAbs_natCast]
  rw [decimalString, decide_eq_false (Int.not_lt.mpr hnonneg), Bool.and_false, hvalue]
  rfl

theorem length_digits_le_max (hmax : value ≤ T.max) :
    (digits value).length ≤ log10Floor T.max.toNat + 1 := by
  have hnonneg : 0 ≤ T.max := by
    cases T <;> decide
  apply length_digits_le
  rw [Int.toNat_of_nonneg hnonneg]
  exact hmax

/-- What is reserved for a type is enough for all of its values. -/
theorem length_decimalString_le (hmax : value ≤ T.max) :
    (decimalString T value).length ≤ getMaxNumberOfDecimalDigitsOfIntegerType T := by
  rw [decimalString, getMaxNumberOfDecimalDigitsOfIntegerType]
  split
  · rw [List.length_cons, List.length_reverse]
    exact Nat.succ_le_succ (length_digits_le_max (wrap_le_max T (-value)))
  · rw [List.length_reverse]
    exact Nat.le_succ_of_le (length_digits_le_max hmax)

/-- All values but the most negative one of a signed type have their numerals. -/
theorem isSignedNumeral_decimalString (hmin : T.min ≤ value)
    (hmost : T.isSigned = true → value ≠ T.min) :
    IsSignedNumeral value (decimalString T value) := by
  rw [IsSignedNumeral]
  split
  · rename_i hneg
    have hsigned := isSigned_of_neg hmin hneg
    have hlt : T.min < value := lt_of_le_of_ne hmin (hmost hsigned).symm
    refine ⟨Decimal.print value.natAbs, ?_, Decimal.isNumeral_print _⟩
    rw [decimalString_of_neg hsigned hneg, wrap_neg hneg hlt, digits_natCast,
      List.reverse_reverse]
  · rename_i hnonneg
    rw [decimalString_of_nonneg (Int.not_lt.mp hnonneg)]
    exact Decimal.isNumeral_print _

theorem mem_decimalString {character : UInt8} (hmem : character ∈ decimalString T value) :
    character = 45 ∨ ∃ n, character = digitCharacter n := by
  have hdigits : ∀ n, character ∈ digits n → ∃ n, character = digitCharacter n := by
    intro n hdigit
    induction n using digits.induct with
    | case1 n hmore ih =>
      rw [digits_of_pos hmore] at hdigit
      cases List.mem_cons.mp hdigit with
      | inl hfirst => exact ⟨n, hfirst⟩
      | inr hrest => exact ih hrest
    | case2 n hlast =>
      rw [digits_of_not_pos hlast] at hdigit
      exact ⟨n, List.mem_singleton.mp hdigit⟩
  rw [decimalString] at hmem
  split at hmem
  · cases List.mem_cons.mp hmem with
    | inl hsign => exact .inl hsign
    | inr hrest => exact .inr (hdigits _ (List.mem_reverse.mp hrest))
  · exact .inr (hdigits _ (List.mem_reverse.mp hmem))

theorem digitCharacter_ne_newline (value : Int) : digitCharacter value ≠ 10 := by
  have hlow : -10 < value.tmod 10 := Int.lt_tmod_of_pos value (by decide)
  have hhigh : value.tmod 10 < 10 := Int.tmod_lt_of_pos value (by decide)
  intro hnewline
  have hvalue := congrArg UInt8.toNat hnewline
  rw [digitCharacter, UInt8.ofInt, UInt8.toNat_ofNat'] at hvalue
  have hten : (10 : UInt8).toNat = 10 := rfl
  omega

theorem newline_not_mem_decimalString (T : IntegerType) (value : Int) :
    10 ∉ decimalString T value := by
  intro hmem
  cases mem_decimalString hmem with
  | inl hsign => cases hsign
  | inr hdigit =>
    obtain ⟨n, hn⟩ := hdigit
    exact digitCharacter_ne_newline n hn.symm

theorem length_hexLetters (value count : Nat) : (hexLetters value count).length = count := by
  induction count generalizing value with
  | zero => rfl
  | succ count ih => rw [hexLetters, List.length_cons, ih]

theorem length_convertPointerToHexString (pointer : UInt64) :
    (convertPointerToHexString pointer).length =
      getMinNumberOfCharsRequiredToRepresentPointer := by
  rw [convertPointerToHexString, List.length_append, List.length_reverse, length_hexLetters]
  rfl

theorem newline_not_mem_hexLetters (value count : Nat) : 10 ∉ hexLetters value count := by
  have hletter : ∀ n < 16, (10 : UInt8) ≠ HEX_ALPHABET_TABLE.getD n 0 := by decide
  induction count generalizing value with
  | zero => exact List.not_mem_nil
  | succ count ih =>
    rw [hexLetters, List.mem_cons, not_or]
    exact ⟨hletter _ (Nat.mod_lt value (by decide)), ih _⟩

theorem newline_not_mem_convertPointerToHexString (pointer : UInt64) :
    10 ∉ convertPointerToHexString pointer := by
  rw [convertPointerToHexString, List.mem_append, List.mem_reverse, not_or]
  exact ⟨by decide, newline_not_mem_hexLetters _ _⟩

end XubinhServer.Format

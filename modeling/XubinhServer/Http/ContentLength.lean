import Mathlib.Data.List.TakeWhile
import XubinhServer.Http.Parser
import XubinhServer.Lib.Decimal

/-! What the parser takes for a content length. -/
namespace XubinhServer

open Decimal

theorem ne_of_isDigit {b : UInt8} (hb : isDigit b = true) :
    b ≠ 0 ∧ b ≠ 45 ∧ b ≠ 43 ∧ isspace b = false := by
  simp only [isDigit, Bool.and_eq_true, decide_eq_true_eq, UInt8.le_iff_toNat_le] at hb
  have hlow : 48 ≤ b.toNat := hb.1
  refine ⟨?_, ?_, ?_, ?_⟩
  · intro heq
    rw [heq] at hlow
    exact absurd hlow (by decide)
  · intro heq
    rw [heq] at hlow
    exact absurd hlow (by decide)
  · intro heq
    rw [heq] at hlow
    exact absurd hlow (by decide)
  · have hne : b ≠ 32 := by
      intro heq
      rw [heq] at hlow
      exact absurd hlow (by decide)
    have hhigh : ¬b ≤ 13 := by
      intro hle
      have hle' : b.toNat ≤ 13 := UInt8.le_iff_toNat_le.mp hle
      omega
    simp [isspace, hne, hhigh]

theorem cStr_of_ne_zero {s : List UInt8} (hs : ∀ b ∈ s, b ≠ 0) : cStr s = s :=
  List.takeWhile_eq_self_iff.mpr fun b hb => decide_eq_true (hs b hb)

theorem decimalDigits_of_digits {s : List UInt8} (hs : ∀ b ∈ s, isDigit b = true) :
    decimalDigits s = (value s, s.length) := by
  have htake : (s.takeWhile fun b => 48 ≤ b && b ≤ 57) = s := List.takeWhile_eq_self_iff.mpr hs
  rw [decimalDigits, htake]
  rfl

/-- Digits are read as the number that they stand for, up to the largest one. -/
theorem strtol_digits {s : List UInt8} (hne : s ≠ []) (hs : ∀ b ∈ s, isDigit b = true) :
    strtol (cStr s) = (min (value s : Int) (2 ^ 63 - 1), true) := by
  rw [cStr_of_ne_zero fun b hb => (ne_of_isDigit (hs b hb)).1]
  cases s with
  | nil => exact absurd rfl hne
  | cons b rest =>
    obtain ⟨_, hminus, hplus, hspace⟩ := ne_of_isDigit (hs b List.mem_cons_self)
    have hdrop : (b :: rest).dropWhile isspace = b :: rest :=
      List.dropWhile_cons_of_neg (by simp [hspace])
    simp only [strtol, hdrop, takeSign, if_neg hminus, if_neg hplus, decimalDigits_of_digits hs]
    rw [if_neg (by simp)]
    rfl

theorem strtol_print {n : Nat} (hn : n < 2 ^ 63) : strtol (cStr (print n)) = ((n : Int), true) := by
  rw [strtol_digits (print_ne_nil n) fun b hb => isDigit_of_mem_print hb, value_print]
  have hle : (n : Int) ≤ 2 ^ 63 - 1 := by omega
  rw [min_eq_left hle]

namespace HttpParser

variable {p : HttpParser} {value : List UInt8} {z : Int}

/-- The parser behind the blank line of a request that announces a body of the given length. -/
def announced (p : HttpParser) (length : Nat) : HttpParser :=
  { p with
    bodyLength := length
    request.needClose :=
      p.request.headers.find (bytes "Connection") == some (bytes "close") }

theorem headersFinished_of_number (timeStamp : Int) (hpost : p.request.method = .post)
    (hfind : p.request.headers.find (bytes "Content-Length") = some value)
    (hvalue : strtol (cStr value) = (z, true)) :
    p.headersFinished timeStamp =
      if (z % 2 ^ 64).toNat = 0 then (p.announced (z % 2 ^ 64).toNat).succeed timeStamp
      else { p.announced (z % 2 ^ 64).toNat with parsingState := .expectBody } := by
  simp only [headersFinished, announced, hpost, if_true, hfind, hvalue, Bool.not_true,
    Bool.false_eq_true, if_false]

end HttpParser

end XubinhServer

import XubinhServer.LogBuilder

/-! The buffer of an entry as the array that it is, with the terminators that numbers leave behind
their text. -/
namespace XubinhServer

open Format Memory

/-- `length` is where the spare starts. -/
structure EntryBuffer where
  buffer : List UInt8
  size : buffer.length = LOG_ENTRY_BUFFER_SIZE
  length : Nat
  fits : length ≤ LOG_ENTRY_BUFFER_SIZE - 1

namespace EntryBuffer

def lengthOfSpare (b : EntryBuffer) : Nat := LOG_ENTRY_BUFFER_SIZE - 1 - b.length

/-- `increment_length` behind a write. There is no buffer whose spare starts behind its end. -/
def incrementLength (b : EntryBuffer) (written : List UInt8) (delta : Nat) : Option EntryBuffer :=
  if h : written.length = LOG_ENTRY_BUFFER_SIZE ∧ b.length + delta ≤ LOG_ENTRY_BUFFER_SIZE - 1 then
    some ⟨written, h.1, b.length + delta, h.2⟩
  else none

def append (b : EntryBuffer) (data : List UInt8) : Option EntryBuffer :=
  if data.length > b.lengthOfSpare then some b
  else do
    let written ← putAll b.buffer b.length data
    b.incrementLength written data.length

def insertInteger (b : EntryBuffer) (T : IntegerType) (value : T.Value) : Option EntryBuffer :=
  if b.lengthOfSpare > getMaxNumberOfDecimalDigitsOfIntegerType T then do
    let (written, delta) ← convertIntegerToDecimalString T b.buffer b.length value
    b.incrementLength written delta
  else some b

/-- The part in front of the spare. -/
def toLogEntryBuffer (b : EntryBuffer) : LogEntryBuffer where
  data := b.buffer.take b.length
  fits := by
    have hfits := b.fits
    rw [List.length_take]
    omega

variable {b : EntryBuffer} {text rest : List UInt8} {T : IntegerType}

theorem length_toLogEntryBuffer (b : EntryBuffer) : b.toLogEntryBuffer.data.length = b.length := by
  have hsize := b.size
  have hfits := b.fits
  rw [toLogEntryBuffer, List.length_take, LOG_ENTRY_BUFFER_SIZE] at *
  omega

theorem lengthOfSpare_toLogEntryBuffer (b : EntryBuffer) :
    b.toLogEntryBuffer.lengthOfSpare = b.lengthOfSpare := by
  rw [FixedSizeLogBuffer.lengthOfSpare, length_toLogEntryBuffer, lengthOfSpare]

/-- Text that fits comes in, whatever is written behind it. -/
theorem incrementLength_splice (htext : b.length + text.length ≤ LOG_ENTRY_BUFFER_SIZE - 1)
    (hrest : b.length + (text ++ rest).length ≤ LOG_ENTRY_BUFFER_SIZE) :
    ∃ b', b.incrementLength (splice b.buffer b.length (text ++ rest)) text.length = some b' ∧
      b'.buffer = splice b.buffer b.length (text ++ rest) ∧
      b'.length = b.length + text.length := by
  have hlength := length_splice (b.size.symm ▸ hrest)
  rw [incrementLength, dif_pos ⟨hlength.trans b.size, htext⟩]
  exact ⟨_, rfl, rfl, rfl⟩

theorem toLogEntryBuffer_of_splice {b' : EntryBuffer}
    (hbuffer : b'.buffer = splice b.buffer b.length (text ++ rest))
    (hlength : b'.length = b.length + text.length) :
    b'.toLogEntryBuffer.data = b.toLogEntryBuffer.data ++ text := by
  have hfits := b.fits
  have hsize := b.size
  have hp : b.length ≤ b.buffer.length := by omega
  have hdata : b'.toLogEntryBuffer.data = b'.buffer.take b'.length := rfl
  rw [hdata, hbuffer, hlength, take_splice_append hp, toLogEntryBuffer]

/-- A number that passes its fit test is written with its terminator inside of the array. -/
theorem insertInteger_of_test (value : T.Value)
    (htest : b.lengthOfSpare > getMaxNumberOfDecimalDigitsOfIntegerType T) :
    ∃ b', b.insertInteger T value = some b' ∧
      b'.buffer = splice b.buffer b.length (decimalString T value ++ [0]) ∧
      b'.length = b.length + (decimalString T value).length := by
  have hmax := length_decimalString_le value.2.2
  have hfits := b.fits
  have hspare : b.length + getMaxNumberOfDecimalDigitsOfIntegerType T <
      LOG_ENTRY_BUFFER_SIZE - 1 := by
    rw [lengthOfSpare] at htest
    omega
  have htext : b.length + (decimalString T value).length ≤ LOG_ENTRY_BUFFER_SIZE - 1 := by omega
  have hrest : b.length + (decimalString T value ++ [0]).length ≤ LOG_ENTRY_BUFFER_SIZE := by
    rw [List.length_append, List.length_singleton]
    omega
  have hroom : b.length + (decimalString T value).length < b.buffer.length := by
    rw [b.size]
    omega
  rw [insertInteger, if_pos htest, convertIntegerToDecimalString_eq hroom, Option.bind_eq_bind,
    Option.bind_some]
  exact incrementLength_splice htext hrest

/-- The array does what the list of its bytes does. -/
theorem insertInteger_refines (b : EntryBuffer) (value : T.Value) :
    ∃ b', b.insertInteger T value = some b' ∧ b'.toLogEntryBuffer.data =
      (b.toLogEntryBuffer.insert (.integer T value)).data := by
  have hspare := lengthOfSpare_toLogEntryBuffer b
  rw [FixedSizeLogBuffer.insert, hspare]
  split
  · rename_i htest
    obtain ⟨b', hb', hbuffer, hlength⟩ := insertInteger_of_test value htest
    have hmax := length_decimalString_le value.2.2
    refine ⟨b', hb', ?_⟩
    rw [FixedSizeLogBuffer.append_data (hspare ▸ Nat.le_trans hmax (Nat.le_of_lt htest))]
    exact toLogEntryBuffer_of_splice hbuffer hlength
  · rename_i htest
    rw [insertInteger, if_neg htest]
    exact ⟨b, rfl, rfl⟩

theorem append_refines (b : EntryBuffer) (data : List UInt8) :
    ∃ b', b.append data = some b' ∧ b'.toLogEntryBuffer.data =
      (b.toLogEntryBuffer.append data).data := by
  have hspare := lengthOfSpare_toLogEntryBuffer b
  have hfits := b.fits
  have hsize := b.size
  by_cases hroom : data.length > b.lengthOfSpare
  · rw [append, if_pos hroom, FixedSizeLogBuffer.append, dif_pos (hspare ▸ hroom)]
    exact ⟨b, rfl, rfl⟩
  · have htext : b.length + data.length ≤ LOG_ENTRY_BUFFER_SIZE - 1 := by
      rw [lengthOfSpare] at hroom
      omega
    have hrest : b.length + (data ++ []).length ≤ LOG_ENTRY_BUFFER_SIZE := by
      rw [List.append_nil]
      omega
    obtain ⟨b', hb', hbuffer, hlength⟩ := incrementLength_splice htext hrest
    rw [List.append_nil] at hb' hrest
    rw [append, if_neg hroom, putAll_eq (by omega), Option.bind_eq_bind, Option.bind_some,
      FixedSizeLogBuffer.append_data (hspare ▸ Nat.not_lt.mp hroom)]
    exact ⟨b', hb', toLogEntryBuffer_of_splice hbuffer hlength⟩

end EntryBuffer

namespace Format

/-- Each value but the most negative ones is written as its numeral and a terminator, in no more
digits than are reserved. So the numeral that a builder inserts stays inside of its buffer, which
is left alone where the test does not pass. -/
theorem convertIntegerToDecimalString_isSignedNumeral (T : IntegerType) (value : T.Value)
    (hmost : T.isSigned = true → value.1 ≠ T.min) :
    ∃ numeral, IsSignedNumeral value numeral ∧
      numeral.length ≤ getMaxNumberOfDecimalDigitsOfIntegerType T ∧
      (∀ (memory : List UInt8) (outputBuffer : Nat),
        outputBuffer + numeral.length < memory.length →
        convertIntegerToDecimalString T memory outputBuffer value =
          some (splice memory outputBuffer (numeral ++ [0]), numeral.length)) ∧
      ∀ b : EntryBuffer,
        if b.lengthOfSpare > getMaxNumberOfDecimalDigitsOfIntegerType T then
          ∃ b', b.insertInteger T value = some b' ∧
            b'.buffer = splice b.buffer b.length (numeral ++ [0]) ∧
            b'.length = b.length + numeral.length
        else b.insertInteger T value = some b := by
  refine ⟨decimalString T value, isSignedNumeral_decimalString value.2.1 hmost,
    length_decimalString_le value.2.2, fun _ _ hroom => convertIntegerToDecimalString_eq hroom,
    fun b => ?_⟩
  split
  · rename_i htest
    exact b.insertInteger_of_test value htest
  · rename_i htest
    rw [EntryBuffer.insertInteger, if_neg htest]

/-- The greatest negation of a `short`. -/
theorem convertIntegerToDecimalString_isSignedNumeral_short :
    (-32767 : Int) ≠ IntegerType.short.min ∧ ∃ numeral, IsSignedNumeral (-32767) numeral ∧
      numeral.length ≤ getMaxNumberOfDecimalDigitsOfIntegerType .short := by
  have hmost : (-32767 : Int) ≠ IntegerType.short.min := by decide
  obtain ⟨numeral, hnumeral, hlength, _⟩ :=
    convertIntegerToDecimalString_isSignedNumeral .short ⟨-32767, by decide⟩ fun _ => hmost
  exact ⟨hmost, numeral, hnumeral, hlength⟩

end Format

end XubinhServer

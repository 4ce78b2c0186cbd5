import XubinhServer.Format
import XubinhServer.Lib.Packing
import XubinhServer.LogCollector

/-! The builder of a log entry: a buffer that pieces are inserted into, and whose content is handed
to the collector when the builder is destroyed. -/
namespace XubinhServer

open Format Memory

abbrev LogEntryBuffer := FixedSizeLogBuffer LOG_ENTRY_BUFFER_SIZE

/-- What is inserted with `<<`. A C string may be a null pointer. -/
inductive Insertion where
  | integer (T : IntegerType) (value : T.Value)
  | boolean (value : Bool)
  | pointer (value : UInt64)
  | character (value : UInt8)
  | cString (value : Option (List UInt8))
  | string (value : List UInt8)

namespace FixedSizeLogBuffer

/-- The operators `<<`. Numbers have fit tests of their own. -/
def insert (b : LogEntryBuffer) : Insertion → LogEntryBuffer
  | .integer T value =>
    if b.lengthOfSpare > getMaxNumberOfDecimalDigitsOfIntegerType T then
      b.append (decimalString T value)
    else b
  | .boolean value => b.append (bytes (if value then "true " else "false"))
  | .pointer value =>
    if b.lengthOfSpare > getMinNumberOfCharsRequiredToRepresentPointer then
      b.append (convertPointerToHexString value)
    else b
  | .character value => b.append [value]
  | .cString value =>
    match value with
    | none => b
    | some value => b.append value
  | .string value => if value.length > 0 then b.append value else b

end FixedSizeLogBuffer

inductive LogLevel where
  | trace
  | debug
  | info
  | warn
  | error
  | fatal
  deriving DecidableEq, Repr

def LogLevel.string : LogLevel → String
  | trace => "TRACE"
  | debug => "DEBUG"
  | info => "INFO "
  | warn => "WARN "
  | error => "ERROR"
  | fatal => "FATAL"

/-- What the entry says of the place in the source. A name is a null pointer where there is
none. -/
structure Position where
  sourceFileBaseName : Option (List UInt8)
  lineNumber : IntegerType.int.Value
  functionName : Option (List UInt8)
  savedErrno : IntegerType.int.Value

/-- What the constructor gets from the thread and its clock. -/
structure Stamp where
  datetimeString : List UInt8
  tidString : List UInt8

structure LogBuilder where
  logLevel : LogLevel
  entryBuffer : LogEntryBuffer
  position : Position

namespace LogBuilder

def new (logLevel : LogLevel) (position : Position) (stamp : Stamp) : LogBuilder :=
  let buffer : LogEntryBuffer := .new
  let buffer := buffer.append stamp.datetimeString
  let buffer := buffer.append (bytes " | ")
  let buffer := buffer.append stamp.tidString
  let buffer := buffer.append (bytes " | ")
  let buffer := buffer.append (bytes logLevel.string)
  let buffer := buffer.append (bytes " | ")
  ⟨logLevel, buffer, position⟩

def insert (b : LogBuilder) (insertion : Insertion) : LogBuilder :=
  { b with entryBuffer := b.entryBuffer.insert insertion }

/-- The destructor, up to the entry that is handed to `take_this_log`. -/
def finish (strerrorTl : Int → List UInt8) (b : LogBuilder) : List UInt8 :=
  let buffer := b.entryBuffer
  let buffer := match b.position.sourceFileBaseName with
    | none => buffer
    | some name => (((buffer.append (bytes " | ")).append name).append (bytes ":")).insert
        (.integer .int b.position.lineNumber)
  let buffer := match b.position.functionName with
    | none => buffer
    | some name => (buffer.append (bytes " | ")).append name
  let buffer := if b.position.savedErrno.1 ≠ 0 then
      (((((buffer.append (bytes " | ")).insert
        (.string (strerrorTl b.position.savedErrno))).append (bytes " (errno=")).insert
        (.integer .int b.position.savedErrno)).append (bytes ")"))
    else buffer
  (buffer.append (bytes "\n")).data

/-- The entry of a whole statement. -/
def entry (logLevel : LogLevel) (position : Position) (stamp : Stamp)
    (strerrorTl : Int → List UInt8) (insertions : List Insertion) : List UInt8 :=
  (insertions.foldl insert (new logLevel position stamp)).finish strerrorTl

end LogBuilder

/-- What an insertion puts in, and how much room it asks for. -/
def Insertion.piece : Insertion → Piece UInt8
  | .integer T value =>
    ⟨decimalString T value, getMaxNumberOfDecimalDigitsOfIntegerType T + 1,
      Nat.le_succ_of_le (length_decimalString_le value.2.2)⟩
  | .boolean value => .whole (bytes (if value then "true " else "false"))
  | .pointer value =>
    ⟨convertPointerToHexString value, getMinNumberOfCharsRequiredToRepresentPointer + 1,
      Nat.le_succ_of_le (Nat.le_of_eq (length_convertPointerToHexString value))⟩
  | .character value => .whole [value]
  | .cString value => .whole (value.getD [])
  | .string value => .whole value

namespace LogBuilder

open Piece

def header (logLevel : LogLevel) (stamp : Stamp) : List (Piece UInt8) :=
  [whole stamp.datetimeString, whole (bytes " | "), whole stamp.tidString, whole (bytes " | "),
    whole (bytes logLevel.string), whole (bytes " | ")]

def trailer (position : Position) (strerrorTl : Int → List UInt8) : List (Piece UInt8) :=
  (match position.sourceFileBaseName with
    | none => []
    | some name => [whole (bytes " | "), whole name, whole (bytes ":"),
        (Insertion.integer .int position.lineNumber).piece]) ++
  (match position.functionName with
    | none => []
    | some name => [whole (bytes " | "), whole name]) ++
  if position.savedErrno.1 ≠ 0 then
    [whole (bytes " | "), whole (strerrorTl position.savedErrno), whole (bytes " (errno="),
      (Insertion.integer .int position.savedErrno).piece, whole (bytes ")")]
  else []

/-- The pieces of an entry, but for the newline at its end. -/
def pieces (logLevel : LogLevel) (position : Position) (stamp : Stamp)
    (strerrorTl : Int → List UInt8) (insertions : List Insertion) : List (Piece UInt8) :=
  header logLevel stamp ++ insertions.map Insertion.piece ++ trailer position strerrorTl

/-- What a line of the log file should be: whole pieces in their order, in no more bytes than fit,
and one newline at the end. -/
structure IsLine (pieces : List (Piece UInt8)) (entry : List UInt8) : Prop where
  fits : entry.length ≤ LOG_ENTRY_BUFFER_SIZE - 1
  whole : ∃ kept : List (Piece UInt8), kept.Sublist (pieces ++ [Piece.whole (bytes "\n")]) ∧
    entry = kept.flatMap text
  terminated : Terminated 10 entry

end LogBuilder

namespace FixedSizeLogBuffer

theorem append_eq_add {size : Nat} (b : FixedSizeLogBuffer size) (text : List UInt8) :
    (b.append text).data = (Piece.whole text).add (size - 1) b.data := by
  have hfits := b.fits
  have hroom : text.length ≤ b.lengthOfSpare ↔ b.data.length + text.length ≤ size - 1 := by
    rw [lengthOfSpare]
    omega
  rw [Piece.add]
  split
  · rename_i h
    exact append_data (hroom.mpr h)
  · rename_i h
    rw [append, dif_pos (Nat.lt_of_not_le (mt hroom.mp h))]

/-- A number that passes its fit test is appended as a whole. -/
theorem append_of_test {size : Nat} (b : FixedSizeLogBuffer size) {text : List UInt8} {n : Nat}
    (hn : text.length ≤ n) :
    (if b.lengthOfSpare > n then b.append text else b).data =
      Piece.add (size - 1) b.data ⟨text, n + 1, Nat.le_succ_of_le hn⟩ := by
  have hroom : b.lengthOfSpare > n ↔ b.data.length + (n + 1) ≤ size - 1 := by
    rw [lengthOfSpare]
    omega
  rw [Piece.add]
  split
  · rename_i h
    rw [append_data (Nat.le_trans hn (Nat.le_of_lt h)), if_pos (hroom.mp h)]
  · rename_i h
    rw [if_neg (mt hroom.mpr h)]

theorem insert_eq_add (b : LogEntryBuffer) (insertion : Insertion) :
    (b.insert insertion).data = insertion.piece.add (LOG_ENTRY_BUFFER_SIZE - 1) b.data := by
  have hempty : b.data = (Piece.whole []).add (LOG_ENTRY_BUFFER_SIZE - 1) b.data := by
    have hroom : b.data.length + (Piece.whole ([] : List UInt8)).room ≤
        LOG_ENTRY_BUFFER_SIZE - 1 := b.fits
    rw [Piece.add, if_pos hroom]
    exact (List.append_nil _).symm
  cases insertion with
  | integer T value => exact b.append_of_test (length_decimalString_le value.2.2)
  | boolean value => exact b.append_eq_add _
  | pointer value =>
    exact b.append_of_test (Nat.le_of_eq (length_convertPointerToHexString value))
  | character value => exact b.append_eq_add _
  | cString value =>
    cases value with
    | none => exact hempty
    | some value => exact b.append_eq_add value
  | string value =>
    rw [insert]
    split
    · exact b.append_eq_add value
    · rename_i hzero
      rw [List.eq_nil_of_length_eq_zero (Nat.eq_zero_of_not_pos hzero)]
      exact hempty

end FixedSizeLogBuffer

namespace LogBuilder

open Piece FixedSizeLogBuffer

variable {logLevel : LogLevel} {position : Position} {stamp : Stamp}
  {strerrorTl : Int → List UInt8} {insertions : List Insertion}

theorem new_data (logLevel : LogLevel) (position : Position) (stamp : Stamp) :
    (new logLevel position stamp).entryBuffer.data =
      pack (LOG_ENTRY_BUFFER_SIZE - 1) [] (header logLevel stamp) := by
  simp only [new, append_eq_add]
  rfl

theorem insertAll_data (b : LogBuilder) (insertions : List Insertion) :
    (insertions.foldl insert b).entryBuffer.data = pack (LOG_ENTRY_BUFFER_SIZE - 1)
      b.entryBuffer.data (insertions.map Insertion.piece) := by
  induction insertions generalizing b with
  | nil => rfl
  | cons insertion insertions ih =>
    have hinsert := b.entryBuffer.insert_eq_add insertion
    exact (ih (b.insert insertion)).trans (congrArg (pack _ · _) hinsert)

theorem insertAll_position (b : LogBuilder) (insertions : List Insertion) :
    (insertions.foldl insert b).position = b.position := by
  induction insertions generalizing b with
  | nil => rfl
  | cons insertion insertions ih => exact ih (b.insert insertion)

theorem finish_eq (b : LogBuilder) : b.finish strerrorTl = pack (LOG_ENTRY_BUFFER_SIZE - 1)
    b.entryBuffer.data (trailer b.position strerrorTl ++ [whole (bytes "\n")]) := by
  obtain ⟨logLevel, buffer, name, lineNumber, function, savedErrno⟩ := b
  by_cases herrno : savedErrno.1 ≠ 0
  · cases name <;> cases function <;>
      simp only [finish, trailer, if_pos herrno, append_eq_add, insert_eq_add] <;> rfl
  · cases name <;> cases function <;>
      simp only [finish, trailer, if_neg herrno, append_eq_add, insert_eq_add] <;> rfl

/-- The entry is what the packing of all pieces makes of them. -/
theorem entry_eq (logLevel : LogLevel) (position : Position) (stamp : Stamp)
    (strerrorTl : Int → List UInt8) (insertions : List Insertion) :
    entry logLevel position stamp strerrorTl insertions = pack (LOG_ENTRY_BUFFER_SIZE - 1) []
      (pieces logLevel position stamp strerrorTl insertions ++ [whole (bytes "\n")]) := by
  rw [entry, finish_eq, insertAll_data, insertAll_position, new_data, ← pack_append,
    ← pack_append, pieces]
  simp only [List.append_assoc]
  rfl

end LogBuilder

/-- Nothing that is inserted has a newline in it. -/
def Insertion.Plain : Insertion → Prop
  | .integer _ _ | .boolean _ | .pointer _ => True
  | .character value => value ≠ 10
  | .cString value => ∀ text ∈ value, 10 ∉ text
  | .string value => 10 ∉ value

theorem Insertion.Plain.piece {insertion : Insertion} (h : insertion.Plain) :
    10 ∉ insertion.piece.text := by
  cases insertion with
  | integer T value => exact newline_not_mem_decimalString T value
  | boolean value => cases value <;> decide
  | pointer value => exact newline_not_mem_convertPointerToHexString value
  | character value => exact mt List.mem_singleton.mp (Ne.symm h)
  | cString value =>
    cases value with
    | none => exact List.not_mem_nil
    | some value => exact h value rfl
  | string value => exact h

namespace LogBuilder

open Piece FixedSizeLogBuffer

/-- There is no newline in the names, the stamp and the messages of the system either. -/
structure Plain (position : Position) (stamp : Stamp) (strerrorTl : Int → List UInt8) : Prop where
  sourceFileBaseName : ∀ name ∈ position.sourceFileBaseName, 10 ∉ name
  functionName : ∀ name ∈ position.functionName, 10 ∉ name
  datetimeString : 10 ∉ stamp.datetimeString
  tidString : 10 ∉ stamp.tidString
  strerrorTl : ∀ errno, 10 ∉ strerrorTl errno

variable {position : Position} {stamp : Stamp} {strerrorTl : Int → List UInt8}
  {insertions : List Insertion}

theorem Plain.header (h : Plain position stamp strerrorTl) (logLevel : LogLevel) :
    ∀ piece ∈ header logLevel stamp, 10 ∉ piece.text := by
  have hlevel : 10 ∉ bytes logLevel.string := by
    cases logLevel <;> decide
  have hbar : 10 ∉ bytes " | " := by decide
  simp only [LogBuilder.header, List.forall_mem_cons, List.not_mem_nil, false_implies,
    implies_true, and_true]
  exact ⟨h.datetimeString, hbar, h.tidString, hbar, hlevel, hbar⟩

theorem Plain.trailer (h : Plain position stamp strerrorTl) :
    ∀ piece ∈ trailer position strerrorTl, 10 ∉ piece.text := by
  have hnumber : ∀ value : IntegerType.int.Value,
      10 ∉ (Insertion.integer .int value).piece.text :=
    fun value => newline_not_mem_decimalString .int value
  have hbar : 10 ∉ bytes " | " := by decide
  rw [LogBuilder.trailer, List.forall_mem_append, List.forall_mem_append]
  refine ⟨⟨?_, ?_⟩, ?_⟩
  · cases hname : position.sourceFileBaseName with
    | none => exact List.forall_mem_nil _
    | some name =>
      simp only [List.forall_mem_cons]
      exact ⟨hbar, h.sourceFileBaseName name hname, by decide, hnumber _, List.forall_mem_nil _⟩
  · cases hname : position.functionName with
    | none => exact List.forall_mem_nil _
    | some name =>
      simp only [List.forall_mem_cons]
      exact ⟨hbar, h.functionName name hname, List.forall_mem_nil _⟩
  · split
    · simp only [List.forall_mem_cons]
      exact ⟨hbar, h.strerrorTl _, by decide, hnumber _, by decide, List.forall_mem_nil _⟩
    · exact List.forall_mem_nil _

theorem Plain.pieces (h : Plain position stamp strerrorTl) (logLevel : LogLevel)
    (hinsertions : ∀ insertion ∈ insertions, insertion.Plain) :
    ∀ piece ∈ pieces logLevel position stamp strerrorTl insertions, 10 ∉ piece.text := by
  rw [LogBuilder.pieces, List.forall_mem_append, List.forall_mem_append, List.forall_mem_map]
  exact ⟨⟨h.header logLevel, fun insertion hmem => (hinsertions insertion hmem).piece⟩, h.trailer⟩

/-- However the pieces are chosen, only whole ones come in, and not more than fit. -/
theorem isLine_of_terminated {logLevel : LogLevel}
    (hterminated : Terminated 10 (entry logLevel position stamp strerrorTl insertions)) :
    IsLine (pieces logLevel position stamp strerrorTl insertions)
      (entry logLevel position stamp strerrorTl insertions) where
  fits := by
    rw [entry_eq]
    exact length_pack_le (Nat.zero_le _)
  whole := by
    rw [entry_eq]
    exact exists_kept (LOG_ENTRY_BUFFER_SIZE - 1) [] _
  terminated := hterminated

theorem terminated_entry_iff (logLevel : LogLevel) (hplain : Plain position stamp strerrorTl)
    (hinsertions : ∀ insertion ∈ insertions, insertion.Plain) :
    Terminated 10 (entry logLevel position stamp strerrorTl insertions) ↔
      level (LOG_ENTRY_BUFFER_SIZE - 1) 0
        (pieces logLevel position stamp strerrorTl insertions) ≠ LOG_ENTRY_BUFFER_SIZE - 1 := by
  rw [entry_eq]
  exact terminated_pack_iff (hplain.pieces logLevel hinsertions)

/-- An entry that does not even fill the buffer without the fit tests is a line. -/
theorem isLine_of_sum_lt (logLevel : LogLevel) (hplain : Plain position stamp strerrorTl)
    (hinsertions : ∀ insertion ∈ insertions, insertion.Plain)
    (hsum : ((pieces logLevel position stamp strerrorTl insertions).map (·.text.length)).sum <
      LOG_ENTRY_BUFFER_SIZE - 1) :
    IsLine (pieces logLevel position stamp strerrorTl insertions)
      (entry logLevel position stamp strerrorTl insertions) := by
  have hlevel : level (LOG_ENTRY_BUFFER_SIZE - 1) 0
      (pieces logLevel position stamp strerrorTl insertions) ≤ _ := level_le 0 _
  apply isLine_of_terminated
  apply (terminated_entry_iff logLevel hplain hinsertions).mpr
  omega

end LogBuilder

end XubinhServer

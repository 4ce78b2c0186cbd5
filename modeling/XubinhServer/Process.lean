import Mathlib.Tactic.Common

/-! Bytes, and the ways in which the process can end early. -/
namespace XubinhServer

/-- The bytes of a string literal of the source. -/
def bytes (s : String) : List UInt8 := s.toList.map Char.toUInt8

/-- A literal is read off its characters, without its encoding. -/
theorem bytes_ofList (l : List Char) : bytes (String.ofList l) = l.map Char.toUInt8 := by
  rw [bytes, String.toList_ofList]

/-- What ends the process: a `LOG_FATAL`, an exception that nothing catches, an
access through a null pointer, or a call stack that has run out. -/
inductive Halt where
  | logFatal (message : String)
  | badAnyCast
  | lengthError
  | nullPointer
  | stackOverflow
  deriving DecidableEq, Repr

/-- The `errno` values that the code compares against, and all the others. -/
inductive Errno where
  | EAGAIN
  | EWOULDBLOCK
  | EPIPE
  | ENOTCONN
  | other (code : Nat)
  deriving DecidableEq, Repr

end XubinhServer

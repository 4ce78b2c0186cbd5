import Mathlib.Algebra.Group.Int.Defs
import XubinhServer.Http.Request
import XubinhServer.TcpBuffer

/-! The incremental HTTP parser. -/
namespace XubinhServer

inductive ParsingState where
  | expectRequestLine | expectHeaders | expectBody | success | fail
  deriving DecidableEq, Repr

/-- The digits at the front of `s` as a number, with their count. -/
def decimalDigits (s : List UInt8) : Nat × Nat :=
  let digits := s.takeWhile fun b => 48 ≤ b && b ≤ 57
  (digits.foldl (fun n b => 10 * n + (b.toNat - 48)) 0, digits.length)

/-- The sign in front of a number, and what follows it. -/
def takeSign : List UInt8 → Bool × List UInt8
  | [] => (false, [])
  | b :: rest =>
    if b = 45 then (true, rest) else if b = 43 then (false, rest) else (false, b :: rest)

/-- `::strtol(s, &end, 10)` on a 64-bit `long`: the value, and whether there were digits. -/
def strtol (s : List UInt8) : Int × Bool :=
  let (negative, s) := takeSign (s.dropWhile isspace)
  let (value, count) := decimalDigits s
  if count = 0 then (0, false)
  else if negative then (max (-(value : Int)) (-2 ^ 63), true)
  else (min (value : Int) (2 ^ 63 - 1), true)

/-- What `c_str()` shows of a string. -/
def cStr (s : List UInt8) : List UInt8 := s.takeWhile (· ≠ 0)

structure HttpParser where
  parsingState : ParsingState
  bodyLength : Nat
  request : HttpRequest
  deriving DecidableEq, Repr

namespace HttpParser

def new : HttpParser := ⟨.expectRequestLine, 0, .new⟩

def reset (p : HttpParser) : HttpParser := ⟨.expectRequestLine, 0, p.request.reset⟩

def isSuccess (p : HttpParser) : Bool := p.parsingState = .success

/-- What a phase of `parse` leaves behind: `returned` is what `parse` returns when the
phase ends the call. -/
structure Phase where
  returned : Option Bool
  parser : HttpParser
  buffer : MutableSizeTcpBuffer
  deriving DecidableEq, Repr

/-- The end of the parse: the request is complete. -/
def succeed (timeStamp : Int) (p : HttpParser) : HttpParser :=
  { p with parsingState := .success, request.receiveTimePoint := timeStamp }

/-- The empty line has been read: decide whether a body follows. `none` stands for a
content length without digits. -/
def headersFinished (timeStamp : Int) (p : HttpParser) : HttpParser :=
  let headers := p.request.headers
  let p := { p with
    request.needClose := headers.find (bytes "Connection") == some (bytes "close") }
  match if p.request.method = .post then headers.find (bytes "Content-Length") else none with
  | none => p.succeed timeStamp
  | some value =>
    let (length, hasDigits) := strtol (cStr value)
    let p := { p with bodyLength := (length % 2 ^ 64).toNat }
    if !hasDigits then { p with parsingState := .fail }
    else if p.bodyLength = 0 then p.succeed timeStamp
    else { p with parsingState := .expectBody }

section Phases
variable (beyond : Nat → UInt8) (timeStamp : Int)

def expectRequestLine (p : HttpParser) (b : MutableSizeTcpBuffer) : Except Halt Phase := do
  match ← b.getNextCrlfPosition with
  | none => pure ⟨some true, p, b⟩
  | some requestLineEnd =>
    let requestLineStart := b.readOffset
    let (ok, request) ←
      p.request.parseRequestLine (b.memory beyond) requestLineStart requestLineEnd
    if ok then
      pure ⟨none, { p with parsingState := .expectHeaders, request },
        b.forwardReadPosition (requestLineEnd + 2 - requestLineStart)⟩
    else pure ⟨some false, { p with parsingState := .fail, request }, b⟩

/-- The loop over the header lines; every round consumes bytes, so a fuel above the
readable size is never used up. -/
def expectHeaders : (fuel : Nat) → HttpParser → MutableSizeTcpBuffer → Except Halt Phase
  | 0, p, b => pure ⟨some true, p, b⟩
  | fuel + 1, p, b => do
    match ← b.getNextCrlfPosition with
    | none => pure ⟨some true, p, b⟩
    | some headerLineEnd =>
      let headerLineStart := b.readOffset
      if headerLineStart = headerLineEnd then
        let p := p.headersFinished timeStamp
        let returned := match p.parsingState with
          | .expectBody => none
          | .fail => some false
          | _ => some true
        pure ⟨returned, p, b.forwardReadPosition 2⟩
      else
        let (ok, request) ←
          p.request.parseHeaderLine (b.memory beyond) headerLineStart headerLineEnd
        if ok then
          expectHeaders fuel { p with request }
            (b.forwardReadPosition (headerLineEnd + 2 - headerLineStart))
        else pure ⟨some false, { p with parsingState := .fail, request }, b⟩

def expectBody (p : HttpParser) (b : MutableSizeTcpBuffer) : Except Halt Phase := do
  if b.getReadableSize < p.bodyLength then pure ⟨some true, p, b⟩
  else if b.beginPtrIsNull then throw .nullPointer
  else
    let body ← slice (b.memory beyond) b.readOffset (b.readOffset + p.bodyLength)
    pure ⟨some true, { p with request.body := body }.succeed timeStamp,
      b.forwardReadPosition p.bodyLength⟩

/-- Run a phase when the parser is in its state, unless an earlier one has returned. -/
def Phase.andThen (q : Phase) (state : ParsingState)
    (phase : HttpParser → MutableSizeTcpBuffer → Except Halt Phase) : Except Halt Phase :=
  if q.returned = none ∧ q.parser.parsingState = state then phase q.parser q.buffer else pure q

def parse (p : HttpParser) (b : MutableSizeTcpBuffer) :
    Except Halt (Bool × HttpParser × MutableSizeTcpBuffer) := do
  if p.parsingState = .fail then pure (false, p, b)
  else
    let q ← (Phase.mk none p b).andThen .expectRequestLine (expectRequestLine beyond)
    let q ← q.andThen .expectHeaders fun p b =>
      expectHeaders beyond timeStamp (b.getReadableSize + 1) p b
    let q ← q.andThen .expectBody (expectBody beyond timeStamp)
    match q.returned with
    | some result => pure (result, q.parser, q.buffer)
    | none => throw (.logFatal "unknown http parsing state")

end Phases

end HttpParser

end XubinhServer

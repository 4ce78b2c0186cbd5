import XubinhServer.Process

/-! An HTTP request and the parsing of its request line and header lines. A pointer
into the input buffer is an offset into the memory that starts at the buffer's first
byte; the scans may read what lies behind the line. -/
namespace XubinhServer

section Scan
variable (mem : Nat → UInt8)

/-- `while (n-- && p(*pos)) pos++`. -/
def skipWhile (p : UInt8 → Bool) : (n pos : Nat) → Nat
  | 0, pos => pos
  | n + 1, pos => if p (mem pos) then skipWhile p n (pos + 1) else pos

/-- `while (p(*(pos - 1))) pos--`. -/
def skipBack (p : UInt8 → Bool) : (pos : Nat) → Nat
  | 0 => 0
  | pos + 1 => if p (mem pos) then skipBack p pos else pos + 1

def memchr (c : UInt8) : (n pos : Nat) → Option Nat
  | 0, _ => none
  | n + 1, pos => if mem pos = c then some pos else memchr c n (pos + 1)

/-- The string built from the range `[start, stop)`; a reversed range throws. -/
def slice (start stop : Nat) : Except Halt (List UInt8) :=
  if stop < start then throw .lengthError
  else pure ((List.range' start (stop - start)).map mem)

end Scan

def isSpaceByte (b : UInt8) : Bool := b == 32

/-- `::isspace` in the C locale. -/
def isspace (b : UInt8) : Bool := b == 32 || (9 ≤ b && b ≤ 13)

inductive HttpMethodType where
  | unsupportedHttpMethod | get | post
  deriving DecidableEq, Repr

inductive HttpVersionType where
  | unsupportedHttpVersion | http10 | http11
  deriving DecidableEq, Repr

/-- The header map. -/
abbrev Headers := List (List UInt8 × List UInt8)

def Headers.find (h : Headers) (key : List UInt8) : Option (List UInt8) :=
  (List.find? (fun e => e.1 == key) h).map (·.2)

/-- `headers[key] = value`. -/
def Headers.assign (h : Headers) (key value : List UInt8) : Headers :=
  match h with
  | [] => [(key, value)]
  | e :: rest => if e.1 == key then (key, value) :: rest else e :: Headers.assign rest key value

structure HttpRequest where
  method : HttpMethodType
  path : List UInt8
  version : HttpVersionType
  receiveTimePoint : Int
  headers : Headers
  needClose : Bool
  body : List UInt8
  deriving DecidableEq, Repr

namespace HttpRequest

def new : HttpRequest := ⟨.unsupportedHttpMethod, [], .unsupportedHttpVersion, 0, [], false, []⟩

/-- The flag `_need_close` is not among the fields that are cleared. -/
def reset (r : HttpRequest) : HttpRequest := { new with needClose := r.needClose }

def setMethodType (r : HttpRequest) (mem : Nat → UInt8) (start stop : Nat) :
    Except Halt (Bool × HttpRequest) := do
  let method ← slice mem start stop
  if method = bytes "GET" then pure (true, { r with method := .get })
  else if method = bytes "POST" then pure (true, { r with method := .post })
  else pure (false, { r with method := .unsupportedHttpMethod })

def setPath (r : HttpRequest) (mem : Nat → UInt8) (start stop : Nat) :
    Except Halt HttpRequest := do
  let path ← slice mem start stop
  pure { r with path }

def setVersionType (r : HttpRequest) (mem : Nat → UInt8) (start stop : Nat) :
    Except Halt (Bool × HttpRequest) := do
  let version ← slice mem start stop
  if version = bytes "HTTP/1.0" then pure (true, { r with version := .http10 })
  else if version = bytes "HTTP/1.1" then pure (true, { r with version := .http11 })
  else pure (false, { r with version := .unsupportedHttpVersion })

/-- The part of `parse_request_line` behind the path. -/
def parseVersion (r : HttpRequest) (mem : Nat → UInt8) (pathEnd stop : Nat) :
    Except Halt (Bool × HttpRequest) :=
  let versionStart := skipWhile mem isSpaceByte (stop - pathEnd) pathEnd
  if versionStart = stop then pure (false, r)
  else r.setVersionType mem versionStart (skipBack mem isSpaceByte stop)

/-- The part of `parse_request_line` behind the method. Both `memchr` scans run for the
length of the whole line, past its end when the line starts with a space. -/
def parsePath (r : HttpRequest) (mem : Nat → UInt8) (methodEnd start stop : Nat) :
    Except Halt (Bool × HttpRequest) :=
  let pathStart := skipWhile mem isSpaceByte (stop - methodEnd) methodEnd
  if pathStart = stop then pure (false, r)
  else
    match memchr mem 32 (stop - start) pathStart with
    | none => pure (false, r)
    | some pathEnd => do
      let r ← r.setPath mem pathStart pathEnd
      r.parseVersion mem pathEnd stop

def parseRequestLine (r : HttpRequest) (mem : Nat → UInt8) (start stop : Nat) :
    Except Halt (Bool × HttpRequest) :=
  let methodStart := skipWhile mem isSpaceByte (stop - start) start
  if methodStart = stop then pure (false, r)
  else
    match memchr mem 32 (stop - start) methodStart with
    | none => pure (false, r)
    | some methodEnd => do
      let (ok, r) ← r.setMethodType mem methodStart methodEnd
      if ok then r.parsePath mem methodEnd start stop else pure (false, r)

def parseHeaderLine (r : HttpRequest) (mem : Nat → UInt8) (start stop : Nat) :
    Except Halt (Bool × HttpRequest) :=
  match memchr mem 58 (stop - start) start with
  | none => pure (false, r)
  | some colon =>
    let keyStart := skipWhile mem isspace (colon - start) start
    if keyStart = colon then pure (false, r)
    else do
      let keyEnd := skipBack mem isspace colon
      let valueStart := skipWhile mem isspace (stop - (colon + 1)) (colon + 1)
      let valueEnd := if valueStart = stop then stop else skipBack mem isspace stop
      let key ← slice mem keyStart keyEnd
      let value ← slice mem valueStart valueEnd
      pure (true, { r with headers := r.headers.assign key value })

end HttpRequest

end XubinhServer

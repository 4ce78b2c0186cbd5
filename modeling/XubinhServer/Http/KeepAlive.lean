import XubinhServer.Http.Chunks
import XubinhServer.Lib.TwoRuns

/-! A parser that has been reset behaves like a new one, although its request keeps the flag
`_need_close` of the request before. -/
namespace XubinhServer

open TwoRuns

namespace HttpRequest

variable {r : HttpRequest} {mem : Nat → UInt8} {start stop pos : Nat} {needClose : Bool}

def setNeedClose (r : HttpRequest) (needClose : Bool) : HttpRequest :=
  { r with needClose := needClose }

end HttpRequest

namespace HttpParser

variable {p q : HttpParser} {b : MutableSizeTcpBuffer} {beyond : Nat → UInt8} {timeStamp : Int}

/-- `none` stands for the exception that is thrown unless the parser is in state `SUCCESS`. -/
def getRequest (p : HttpParser) : Option HttpRequest :=
  if p.isSuccess then some p.request else none

/-- The flag `_need_close` may differ as long as it will be written before it is read. -/
def Alike (p q : HttpParser) : Prop :=
  ∃ needClose, q = { p with request := p.request.setNeedClose needClose } ∧
    (p.parsingState = .expectBody ∨ p.parsingState = .success →
      needClose = p.request.needClose)

theorem Alike.refl (p : HttpParser) : Alike p p := ⟨p.request.needClose, rfl, fun _ => rfl⟩

theorem Alike.eq (h : Alike p q) (hs : p.parsingState = .expectBody ∨ p.parsingState = .success) :
    q = p := by
  obtain ⟨needClose, rfl, hsame⟩ := h
  rw [hsame hs]
  rfl

theorem Alike.parsingState (h : Alike p q) : q.parsingState = p.parsingState := by
  obtain ⟨needClose, rfl, _⟩ := h
  rfl

theorem Alike.getRequest (h : Alike p q) : q.getRequest = p.getRequest := by
  by_cases hs : p.parsingState = .success
  · rw [h.eq (.inr hs)]
  · have hs' : q.parsingState ≠ .success := h.parsingState ▸ hs
    simp [HttpParser.getRequest, isSuccess, hs, hs']

structure Phase.Alike (x y : Phase) : Prop where
  returned : y.returned = x.returned
  parser : HttpParser.Alike x.parser y.parser
  buffer : y.buffer = x.buffer

/-- What can be seen of a parser behind a call of `parse`. -/
structure Observation where
  result : Bool
  parsingState : ParsingState
  request : Option HttpRequest
  buffer : MutableSizeTcpBuffer

/-- Append the chunks one by one, call `parse` after each, and look at the parser. A halt ends
it. -/
def observe (p : HttpParser) (b : MutableSizeTcpBuffer) :
    List Chunk → List (Except Halt Observation)
  | [] => []
  | chunk :: rest =>
    match (do parse chunk.beyond chunk.timeStamp p (← b.append chunk.data)) with
    | .error e => [.error e]
    | .ok (result, p, b) => .ok ⟨result, p.parsingState, p.getRequest, b⟩ :: observe p b rest

end HttpParser

end XubinhServer

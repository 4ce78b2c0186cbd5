import XubinhServer.Http.Parser
import XubinhServer.Http.Relocation
import XubinhServer.Lib.Transition

/-! The parser as a reader of bytes. What it makes of a request does not depend on how the
request is cut into pieces. -/
namespace XubinhServer

open Transition MutableSizeTcpBuffer

namespace MutableSizeTcpBuffer

theorem crlfIndex_bound {u : List UInt8} {n : Nat} (h : crlfIndex u = some n) :
    n + 2 ≤ u.length ∧ u[n]? = some 13 := by
  induction u generalizing n with
  | nil => cases h
  | cons x rest ih =>
    cases rest with
    | nil => cases h
    | cons y rest =>
      rw [crlfIndex] at h
      split at h
      · rename_i hcrlf
        cases h
        simp [hcrlf.1]
      · rw [Option.map_eq_some_iff] at h
        obtain ⟨m, hm, rfl⟩ := h
        have hbound := ih hm
        refine ⟨by simpa using hbound.1, by simpa using hbound.2⟩

theorem crlfIndex_append {u : List UInt8} {n : Nat} (h : crlfIndex u = some n)
    (w : List UInt8) : crlfIndex (u ++ w) = some n := by
  induction u generalizing n with
  | nil => cases h
  | cons x rest ih =>
    cases rest with
    | nil => cases h
    | cons y rest =>
      rw [crlfIndex] at h
      rw [List.cons_append, List.cons_append, crlfIndex]
      split at h
      · rename_i hcrlf
        rw [if_pos hcrlf, h]
      · rename_i hcrlf
        rw [if_neg hcrlf]
        rw [Option.map_eq_some_iff] at h ⊢
        obtain ⟨m, hm, hmn⟩ := h
        exact ⟨m, ih hm, hmn⟩

end MutableSizeTcpBuffer

theorem lineMemory_take {u : List UInt8} {n k : Nat} (hk : k < n) (hn : n ≤ u.length) :
    lineMemory (u.take n) k = u[k] := by
  have hlt : k < (u.take n).length := by
    rw [List.length_take]
    omega
  rw [lineMemory, List.getElem?_eq_getElem hlt, List.getElem_take]
  rfl

theorem lineMemory_end {u : List UInt8} {n : Nat} (hn : n ≤ u.length) :
    lineMemory (u.take n) n = 13 := by
  rw [lineMemory, List.getElem?_eq_none (by rw [List.length_take]; omega)]
  rfl

namespace HttpParser

/-- A parser that still reads. -/
def Reading (p : HttpParser) : Prop :=
  p.parsingState ≠ .success ∧ p.parsingState ≠ .fail

theorem reading_reset (p : HttpParser) : p.reset.Reading := by
  constructor
  · intro heq
    cases heq
  · intro heq
    cases heq

/-- The parser on the bytes alone: it eats a line or a body that is complete. -/
def eat (timeStamp : Int) (p : HttpParser) (u : List UInt8) : Option (HttpParser × List UInt8) :=
  match p.parsingState with
  | .expectRequestLine =>
    match crlfIndex u with
    | none => none
    | some n =>
      match p.request.parseRequestLine (lineMemory (u.take n)) 0 n with
      | .ok (true, request) =>
        some ({ p with parsingState := .expectHeaders, request }, u.drop (n + 2))
      | _ => none
  | .expectHeaders =>
    match crlfIndex u with
    | none => none
    | some n =>
      if n = 0 then some (p.headersFinished timeStamp, u.drop 2)
      else
        match p.request.parseHeaderLine (lineMemory (u.take n)) 0 n with
        | .ok (true, request) => some ({ p with request }, u.drop (n + 2))
        | _ => none
  | .expectBody =>
    if u.length < p.bodyLength then none
    else some ({ p with request.body := u.take p.bodyLength }.succeed timeStamp,
      u.drop p.bodyLength)
  | _ => none

/-- The line or the body that comes next is not complete. -/
def Waits (p : HttpParser) (u : List UInt8) : Prop :=
  match p.parsingState with
  | .expectRequestLine => crlfIndex u = none
  | .expectHeaders => crlfIndex u = none
  | .expectBody => u.length < p.bodyLength
  | _ => False

def Eats (timeStamp : Int) (x y : HttpParser × List UInt8) : Prop :=
  eat timeStamp x.1 x.2 = some y

section Parse
variable {beyond : Nat → UInt8} {timeStamp : Int} {p q : HttpParser} {b c : MutableSizeTcpBuffer}
  {u v : List UInt8} {n : Nat}

theorem memory_line (hb : b.Valid) (hn : crlfIndex b.unread = some n) :
    ∀ k < n, b.memory beyond (b.readOffset + k) = lineMemory (b.unread.take n) (0 + k) := by
  intro k hk
  have hlen := (crlfIndex_bound hn).1
  rw [Nat.zero_add, lineMemory_take hk (by omega), hb.memory_eq]

theorem memory_line_end (hb : b.Valid) (hn : crlfIndex b.unread = some n) :
    b.memory beyond (b.readOffset + n) = 13 := by
  obtain ⟨hlen, hcr⟩ := crlfIndex_bound hn
  rw [hb.memory_eq beyond n (by omega)]
  rwa [List.getElem?_eq_getElem (by omega), Option.some.injEq] at hcr

/-- In the buffer and on its own the request line is parsed alike, if it is one. -/
theorem parseRequestLine_line (beyond : Nat → UInt8) {r r' : HttpRequest} (hb : b.Valid)
    (hn : crlfIndex b.unread = some n) :
    r.parseRequestLine (b.memory beyond) b.readOffset (b.readOffset + n) = .ok (true, r') ↔
      r.parseRequestLine (lineMemory (b.unread.take n)) 0 n = .ok (true, r') := by
  have hmem : ∀ k < n, b.memory beyond (b.readOffset + k) =
      lineMemory (b.unread.take n) (0 + k) := memory_line hb hn
  have hlen := (crlfIndex_bound hn).1
  constructor
  · intro hok
    have hmoved := HttpRequest.parseRequestLine_moved hmem (memory_line_end hb hn) hok
    rwa [Nat.zero_add] at hmoved
  · intro hok
    have hend : lineMemory (b.unread.take n) (0 + n) = 13 := by
      rw [Nat.zero_add]
      exact lineMemory_end (by omega)
    apply HttpRequest.parseRequestLine_moved (fun k hk => (hmem k hk).symm) hend
    rwa [Nat.zero_add]

theorem parseHeaderLine_line {r : HttpRequest} (hb : b.Valid)
    (hn : crlfIndex b.unread = some n) :
    r.parseHeaderLine (b.memory beyond) b.readOffset (b.readOffset + n) =
      r.parseHeaderLine (lineMemory (b.unread.take n)) 0 n := by
  have hmem : ∀ k < n, b.memory beyond (b.readOffset + k) =
      lineMemory (b.unread.take n) (0 + k) := memory_line hb hn
  have hmoved := HttpRequest.parseHeaderLine_moved (r := r) hmem
  rwa [Nat.zero_add] at hmoved

/-- What follows a phase of `parse`: the end of the call, or the rest of it. -/
def Phase.finish (beyond : Nat → UInt8) (timeStamp : Int) (q : Phase) :
    Except Halt (Bool × HttpParser × MutableSizeTcpBuffer) :=
  match q.returned with
  | some result => .ok (result, q.parser, q.buffer)
  | none => parse beyond timeStamp q.parser q.buffer

theorem parse_of_requestLine (hs : p.parsingState = .expectRequestLine) {phase : Phase}
    (hphase : expectRequestLine beyond p b = .ok phase)
    (hnext : phase.returned = none → phase.parser.parsingState = .expectHeaders) :
    parse beyond timeStamp p b = phase.finish beyond timeStamp := by
  obtain ⟨returned, parser, buffer⟩ := phase
  cases returned with
  | some result =>
    simp [parse, hs, Phase.andThen, hphase, Phase.finish, bind, Except.bind, pure, Except.pure]
  | none =>
    have hparser := hnext rfl
    simp only at hparser
    simp [parse, hs, Phase.andThen, hphase, Phase.finish, hparser, bind, Except.bind, pure,
      Except.pure]

theorem parse_of_headers (hs : p.parsingState = .expectHeaders) {phase : Phase}
    (hphase : expectHeaders beyond timeStamp (b.getReadableSize + 1) p b = .ok phase)
    (hnext : phase.returned = none → phase.parser.parsingState = .expectBody) :
    parse beyond timeStamp p b = phase.finish beyond timeStamp := by
  obtain ⟨returned, parser, buffer⟩ := phase
  cases returned with
  | some result =>
    simp [parse, hs, Phase.andThen, hphase, Phase.finish, bind, Except.bind, pure, Except.pure]
  | none =>
    have hparser := hnext rfl
    simp only at hparser
    simp [parse, hs, Phase.andThen, hphase, Phase.finish, hparser, bind, Except.bind, pure,
      Except.pure]

/-- A header line consumes bytes, so that fuel above the readable size does not matter. -/
theorem expectHeaders_fuel {fuel : Nat} (fuel' : Nat) (hb : b.Valid) (h : b.unread.length < fuel)
    (h' : b.unread.length < fuel') :
    expectHeaders beyond timeStamp fuel p b = expectHeaders beyond timeStamp fuel' p b := by
  induction fuel generalizing fuel' p b with
  | zero => omega
  | succ fuel ih =>
    cases fuel' with
    | zero => omega
    | succ fuel' =>
      simp only [expectHeaders, getNextCrlfPosition_spec hb, bind, Except.bind]
      cases hn : crlfIndex b.unread with
      | none => rfl
      | some n =>
        simp only [Option.map_some]
        split
        · rfl
        · cases hline : p.request.parseHeaderLine (b.memory beyond) b.readOffset
              (b.readOffset + n) with
          | error e => rfl
          | ok result =>
            obtain ⟨ok, request⟩ := result
            cases ok with
            | false => rfl
            | true =>
              simp only [if_true]
              obtain ⟨hvalid, hunread⟩ :=
                forwardReadPosition_spec hb (b.readOffset + n + 2 - b.readOffset)
              have hlen := (crlfIndex_bound hn).1
              apply ih fuel' hvalid
              · rw [hunread, List.length_drop]
                omega
              · rw [hunread, List.length_drop]
                omega

theorem parse_of_waits (hb : b.Valid) (h : Waits p b.unread) :
    parse beyond timeStamp p b = .ok (true, p, b) := by
  cases hs : p.parsingState with
  | expectRequestLine =>
    rw [Waits, hs] at h
    have hphase : expectRequestLine beyond p b = .ok ⟨some true, p, b⟩ := by
      simp [expectRequestLine, getNextCrlfPosition_spec hb, h, bind, Except.bind, pure,
        Except.pure]
    exact parse_of_requestLine hs hphase nofun
  | expectHeaders =>
    rw [Waits, hs] at h
    have hphase : expectHeaders beyond timeStamp (b.getReadableSize + 1) p b =
        .ok ⟨some true, p, b⟩ := by
      simp [expectHeaders, getNextCrlfPosition_spec hb, h, bind, Except.bind, pure, Except.pure]
    exact parse_of_headers hs hphase nofun
  | expectBody =>
    rw [Waits, hs, hb.length_unread] at h
    simp [parse, hs, Phase.andThen, expectBody, h, bind, Except.bind, pure, Except.pure]
  | success => simp [Waits, hs] at h
  | fail => simp [Waits, hs] at h

theorem headersFinished_state (timeStamp : Int) (p : HttpParser) :
    (p.headersFinished timeStamp).parsingState = .expectBody ∨
      (p.headersFinished timeStamp).parsingState = .success ∨
      (p.headersFinished timeStamp).parsingState = .fail := by
  simp only [headersFinished]
  split
  · exact .inr (.inl rfl)
  · split
    · exact .inr (.inr rfl)
    · split
      · exact .inr (.inl rfl)
      · exact .inl rfl

theorem eat_requestLine (beyond : Nat → UInt8) (hb : b.Valid)
    (hs : p.parsingState = .expectRequestLine)
    (h : eat timeStamp p b.unread = some (q, u)) :
    q.parsingState = .expectHeaders ∧ u.length < b.unread.length ∧
      ∃ c : MutableSizeTcpBuffer, c.Valid ∧ c.unread = u ∧
        parse beyond timeStamp p b = parse beyond timeStamp q c := by
  rw [eat, hs] at h
  simp only at h
  cases hn : crlfIndex b.unread with
  | none =>
    rw [hn] at h
    cases h
  | some n =>
    rw [hn] at h
    simp only at h
    split at h
    · rename_i request hline
      cases h
      have hlen := (crlfIndex_bound hn).1
      have hline' := (parseRequestLine_line beyond hb hn).mpr hline
      obtain ⟨hvalid, hunread⟩ := forwardReadPosition_spec hb (n + 2)
      have hphase : expectRequestLine beyond p b = .ok ⟨none,
          { p with parsingState := .expectHeaders, request },
          b.forwardReadPosition (n + 2)⟩ := by
        have hsub : b.readOffset + n + 2 - b.readOffset = n + 2 := by omega
        simp [expectRequestLine, getNextCrlfPosition_spec hb, hn, hline', hsub, bind, Except.bind,
          pure, Except.pure]
      refine ⟨rfl, ?_, _, hvalid, hunread, ?_⟩
      · rw [List.length_drop]
        omega
      · rw [parse_of_requestLine hs hphase fun _ => rfl]
        rfl
    · cases h

/-- The empty line behind the headers. -/
theorem expectHeaders_blank (beyond : Nat → UInt8) (timeStamp : Int) (hb : b.Valid)
    (hn : crlfIndex b.unread = some 0) :
    expectHeaders beyond timeStamp (b.getReadableSize + 1) p b =
      .ok ⟨match (p.headersFinished timeStamp).parsingState with
          | .expectBody => none
          | .fail => some false
          | _ => some true,
        p.headersFinished timeStamp, b.forwardReadPosition 2⟩ := by
  rw [expectHeaders, getNextCrlfPosition_spec hb, hn]
  exact if_pos rfl

/-- One header line, or the empty line behind them. -/
theorem eat_headers (beyond : Nat → UInt8) (hb : b.Valid) (hs : p.parsingState = .expectHeaders)
    (h : eat timeStamp p b.unread = some (q, u)) :
    u.length < b.unread.length ∧ ∃ c : MutableSizeTcpBuffer, c.Valid ∧ c.unread = u ∧
      (q.parsingState = .success → parse beyond timeStamp p b = .ok (true, q, c)) ∧
      (q.Reading → parse beyond timeStamp p b = parse beyond timeStamp q c) ∧
      (q.parsingState = .fail → parse beyond timeStamp p b = .ok (false, q, c)) := by
  rw [eat, hs] at h
  simp only at h
  cases hn : crlfIndex b.unread with
  | none =>
    rw [hn] at h
    cases h
  | some n =>
    rw [hn] at h
    simp only at h
    have hlen := (crlfIndex_bound hn).1
    split at h
    · rename_i hzero
      cases h
      subst hzero
      obtain ⟨hvalid, hunread⟩ := forwardReadPosition_spec hb 2
      have hphase := expectHeaders_blank beyond timeStamp (p := p) hb hn
      refine ⟨by rw [List.length_drop]; omega, _, hvalid, hunread, ?_, ?_, ?_⟩
      · intro hsuccess
        rw [hsuccess] at hphase
        exact parse_of_headers hs hphase (by simp)
      · intro hboth
        obtain ⟨hsuccess, hfail⟩ := hboth
        have hbody := (headersFinished_state timeStamp p).resolve_right
          fun h => h.elim hsuccess hfail
        rw [hbody] at hphase
        exact parse_of_headers hs hphase fun _ => hbody
      · intro hfail
        rw [hfail] at hphase
        exact parse_of_headers hs hphase (by simp)
    · rename_i hne
      split at h
      · rename_i request hline
        cases h
        obtain ⟨hvalid, hunread⟩ := forwardReadPosition_spec hb (n + 2)
        have hshorter : (b.unread.drop (n + 2)).length < b.unread.length := by
          rw [List.length_drop]
          omega
        have hsub : b.readOffset + n + 2 - b.readOffset = n + 2 := by omega
        have hphase : expectHeaders beyond timeStamp (b.getReadableSize + 1) p b =
            expectHeaders beyond timeStamp ((b.forwardReadPosition (n + 2)).getReadableSize + 1)
              { p with request } (b.forwardReadPosition (n + 2)) := by
          rw [expectHeaders, expectHeaders_fuel b.getReadableSize hvalid]
          · simp [getNextCrlfPosition_spec hb, hn, hne, parseHeaderLine_line hb hn, hline, hsub,
              bind, Except.bind]
          · rw [← hvalid.length_unread]
            omega
          · rw [hunread, ← hb.length_unread]
            exact hshorter
        refine ⟨hshorter, _, hvalid, hunread, ?_, ?_, ?_⟩
        · simp
        · intro _
          simp [parse, hs, Phase.andThen, hphase, bind, Except.bind, pure, Except.pure]
        · simp
      · cases h

theorem eat_body (beyond : Nat → UInt8) (hb : b.Valid) (hs : p.parsingState = .expectBody)
    (h : eat timeStamp p b.unread = some (q, u)) :
    q.parsingState = .success ∧ ∃ c : MutableSizeTcpBuffer, c.Valid ∧ c.unread = u ∧
      parse beyond timeStamp p b = .ok (true, q, c) := by
  rw [eat, hs] at h
  simp only at h
  split at h
  · cases h
  · rename_i hlen
    cases h
    obtain ⟨hvalid, hunread⟩ := forwardReadPosition_spec hb p.bodyLength
    have hbody : slice (b.memory beyond) b.readOffset (b.readOffset + p.bodyLength) =
        .ok (b.unread.take p.bodyLength) := by
      rw [slice, if_neg (by omega), Nat.add_sub_cancel_left]
      congr 1
      apply List.ext_getElem
      · simp only [List.length_map, List.length_range', List.length_take]
        omega
      · intro k hk hk'
        simp only [List.length_map, List.length_range'] at hk
        simp only [List.getElem_map, List.getElem_range', Nat.one_mul, List.getElem_take]
        exact hb.memory_eq beyond k (by omega)
    refine ⟨rfl, _, hvalid, hunread, ?_⟩
    rw [hb.length_unread] at hlen
    simp [parse, hs, Phase.andThen, expectBody, hlen, hb.pointer, hbody, succeed, bind,
      Except.bind, pure, Except.pure]

/-- `parse` goes on behind what it has eaten, and ends with the request. -/
theorem parse_of_eat (beyond : Nat → UInt8) (hb : b.Valid)
    (h : eat timeStamp p b.unread = some (q, u)) :
    ∃ c : MutableSizeTcpBuffer, c.Valid ∧ c.unread = u ∧
      (q.parsingState = .success → parse beyond timeStamp p b = .ok (true, q, c)) ∧
      (q.Reading → u.length < b.unread.length ∧
        parse beyond timeStamp p b = parse beyond timeStamp q c) ∧
      (q.parsingState = .fail → parse beyond timeStamp p b = .ok (false, q, c)) := by
  cases hs : p.parsingState with
  | expectRequestLine =>
    obtain ⟨hstate, hlen, c, hvalid, hunread, hparse⟩ := eat_requestLine beyond hb hs h
    refine ⟨c, hvalid, hunread, ?_, fun _ => ⟨hlen, hparse⟩, ?_⟩
    · rw [hstate]
      nofun
    · rw [hstate]
      nofun
  | expectHeaders =>
    obtain ⟨hlen, c, hvalid, hunread, hsuccess, hreading, hfail⟩ :=
      eat_headers beyond hb hs h
    exact ⟨c, hvalid, hunread, hsuccess, fun hq => ⟨hlen, hreading hq⟩, hfail⟩
  | expectBody =>
    obtain ⟨hstate, c, hvalid, hunread, hparse⟩ := eat_body beyond hb hs h
    refine ⟨c, hvalid, hunread, fun _ => hparse, fun hq => absurd hstate hq.1, ?_⟩
    rw [hstate]
    nofun
  | success => simp [eat, hs] at h
  | fail => simp [eat, hs] at h

/-- Where nothing is eaten although a line is complete, the line is refused. -/
theorem parse_of_stuck (hb : b.Valid) (hp : p.Reading) (hwaits : ¬Waits p b.unread)
    (h : eat timeStamp p b.unread = none) : parse beyond timeStamp p b ≠ .ok (true, q, c) := by
  cases hs : p.parsingState with
  | expectRequestLine =>
    rw [Waits, hs] at hwaits
    rw [eat, hs] at h
    simp only at hwaits h
    cases hn : crlfIndex b.unread with
    | none => exact absurd hn hwaits
    | some n =>
      rw [hn] at h
      simp only at h
      cases hline : p.request.parseRequestLine (b.memory beyond) b.readOffset
          (b.readOffset + n) with
      | error e =>
        simp [parse, hs, Phase.andThen, expectRequestLine, getNextCrlfPosition_spec hb, hn, hline,
          bind, Except.bind]
      | ok result =>
        obtain ⟨ok, request⟩ := result
        cases ok with
        | true =>
          have hline' := (parseRequestLine_line beyond hb hn).mp hline
          rw [hline'] at h
          cases h
        | false =>
          have hphase : expectRequestLine beyond p b =
              .ok ⟨some false, { p with parsingState := .fail, request }, b⟩ := by
            simp [expectRequestLine, getNextCrlfPosition_spec hb, hn, hline, bind, Except.bind,
              pure, Except.pure]
          rw [parse_of_requestLine hs hphase nofun]
          nofun
  | expectHeaders =>
    rw [Waits, hs] at hwaits
    rw [eat, hs] at h
    simp only at hwaits h
    cases hn : crlfIndex b.unread with
    | none => exact absurd hn hwaits
    | some n =>
      rw [hn] at h
      simp only at h
      split at h
      · cases h
      · rename_i hne
        cases hline : p.request.parseHeaderLine (lineMemory (b.unread.take n)) 0 n with
        | error e =>
          have hphase : expectHeaders beyond timeStamp (b.getReadableSize + 1) p b = .error e := by
            simp [expectHeaders, getNextCrlfPosition_spec hb, hn, hne, parseHeaderLine_line hb hn,
              hline, bind, Except.bind]
          simp [parse, hs, Phase.andThen, hphase, bind, Except.bind, pure, Except.pure]
        | ok result =>
          obtain ⟨ok, request⟩ := result
          cases ok with
          | true =>
            rw [hline] at h
            cases h
          | false =>
            have hphase : expectHeaders beyond timeStamp (b.getReadableSize + 1) p b =
                .ok ⟨some false, { p with parsingState := .fail, request }, b⟩ := by
              simp [expectHeaders, getNextCrlfPosition_spec hb, hn, hne,
                parseHeaderLine_line hb hn, hline, bind, Except.bind, pure, Except.pure]
            rw [parse_of_headers hs hphase nofun]
            nofun
  | expectBody =>
    rw [Waits, hs] at hwaits
    rw [eat, hs] at h
    simp only at hwaits h
    rw [if_neg hwaits] at h
    cases h
  | success => exact absurd hs hp.1
  | fail => exact absurd hs hp.2

/-- The bytes `u` take the parser to the end of a request. -/
def Completes (timeStamp : Int) (p : HttpParser) (u : List UInt8) (q : HttpParser)
    (v : List UInt8) : Prop :=
  q.parsingState = .success ∧ Reaches (Eats timeStamp) (p, u) (q, v)

theorem not_eats_of_success (hs : q.parsingState = .success) {y : HttpParser × List UInt8} :
    ¬Eats timeStamp (q, v) y := by
  simp [Eats, eat, hs]

theorem not_eats_of_fail (hs : q.parsingState = .fail) {y : HttpParser × List UInt8} :
    ¬Eats timeStamp (q, v) y := by
  simp [Eats, eat, hs]

theorem eq_of_reaches {x y : HttpParser × List UInt8} (hr : Reaches (Eats timeStamp) x y)
    (hx : ∀ z, ¬Eats timeStamp x z) : y = x := by
  induction hr with
  | refl => rfl
  | tail _ hstep ih =>
    rw [ih] at hstep
    exact absurd hstep (hx _)

/-- A run that has not come to its end is in a parser that still reads. -/
theorem reading_of_completes {p' : HttpParser} {u' : List UInt8}
    (hr : Reaches (Eats timeStamp) (p', u') (q, v)) (hs : q.parsingState = .success) :
    p'.parsingState = .success ∧ (q, v) = (p', u') ∨ p'.Reading := by
  by_cases hsuccess : p'.parsingState = .success
  · exact .inl ⟨hsuccess, eq_of_reaches hr fun _ => not_eats_of_success hsuccess⟩
  · right
    refine ⟨hsuccess, fun hfail => ?_⟩
    have heq := eq_of_reaches hr fun _ => not_eats_of_fail hfail
    cases heq
    exact absurd hs hsuccess

/-- A buffer that holds the rest of a request completes it. -/
theorem parse_of_completes (h : Completes timeStamp p b.unread q v) (hp : p.Reading)
    (hb : b.Valid) :
    ∃ c : MutableSizeTcpBuffer, c.Valid ∧ c.unread = v ∧
      parse beyond timeStamp p b = .ok (true, q, c) := by
  obtain ⟨hs, hr⟩ := h
  generalize hx : (p, b.unread) = x at hr
  induction hr using Relation.ReflTransGen.head_induction_on generalizing p b with
  | refl =>
    cases hx
    exact absurd hs hp.1
  | head hstep hrest ih =>
    subst hx
    rename_i y
    obtain ⟨p', u'⟩ := y
    obtain ⟨c, hvalid, hunread, hsuccess, hreading, -⟩ := parse_of_eat beyond hb hstep
    cases reading_of_completes hrest hs with
    | inl hdone =>
      obtain ⟨hstate, heq⟩ := hdone
      cases heq
      exact ⟨c, hvalid, hunread, hsuccess hstate⟩
    | inr hp' =>
      rw [(hreading hp').2]
      apply ih hp' hvalid
      rw [hunread]

/-- A buffer that holds less is eaten as far as possible. -/
theorem parse_of_waiting {p' : HttpParser} {u' : List UInt8}
    (hr : Reaches (Eats timeStamp) (p, b.unread) (p', u')) (hwaits : Waits p' u')
    (hb : b.Valid) :
    ∃ c : MutableSizeTcpBuffer, c.Valid ∧ c.unread = u' ∧
      parse beyond timeStamp p b = .ok (true, p', c) := by
  generalize hx : (p, b.unread) = x at hr
  induction hr using Relation.ReflTransGen.head_induction_on generalizing p b with
  | refl =>
    cases hx
    exact ⟨b, hb, rfl, parse_of_waits hb hwaits⟩
  | head hstep hrest ih =>
    subst hx
    rename_i y
    obtain ⟨p₁, u₁⟩ := y
    obtain ⟨c, hvalid, hunread, -, hreading, -⟩ := parse_of_eat beyond hb hstep
    have hp₁ : p₁.Reading := by
      constructor
      · intro hs
        cases eq_of_reaches hrest fun _ => not_eats_of_success hs
        simp [Waits, hs] at hwaits
      · intro hs
        cases eq_of_reaches hrest fun _ => not_eats_of_fail hs
        simp [Waits, hs] at hwaits
    rw [(hreading hp₁).2]
    apply ih hvalid
    rw [hunread]

/-- What `parse` reports as a request has been eaten. -/
theorem completes_of_parse (h : parse beyond timeStamp p b = .ok (true, q, c))
    (hs : q.parsingState = .success) (hp : p.Reading) (hb : b.Valid) :
    Completes timeStamp p b.unread q c.unread := by
  induction hn : b.unread.length using Nat.strongRecOn generalizing p b with
  | ind n ih =>
    by_cases hwaits : Waits p b.unread
    · rw [parse_of_waits hb hwaits] at h
      cases h
      exact absurd hs hp.1
    · cases heat : eat timeStamp p b.unread with
      | none => exact absurd h (parse_of_stuck hb hp hwaits heat)
      | some y =>
        obtain ⟨p', u'⟩ := y
        obtain ⟨d, hvalid, hunread, hsuccess, hreading, hfail⟩ :=
          parse_of_eat beyond hb heat
        refine ⟨hs, ?_⟩
        by_cases hs' : p'.parsingState = .success
        · rw [hsuccess hs'] at h
          cases h
          rw [hunread]
          exact .single heat
        · by_cases hf' : p'.parsingState = .fail
          · rw [hfail hf'] at h
            cases h
          · obtain ⟨hlen, hparse⟩ := hreading ⟨hs', hf'⟩
            rw [hparse] at h
            subst hunread
            exact .head heat (ih d.unread.length (by omega) h ⟨hs', hf'⟩ hvalid rfl).2

end Parse

section Stream
variable {timeStamp : Int} {p q : HttpParser} {u v w : List UInt8}

theorem take_append_left {n : Nat} (hn : n ≤ u.length) : (u ++ w).take n = u.take n :=
  List.take_append_of_le_length hn

theorem drop_append_left {n : Nat} (hn : n ≤ u.length) : (u ++ w).drop n = u.drop n ++ w :=
  List.drop_append_of_le_length hn

theorem not_waits_of_eat {y : HttpParser × List UInt8} (h : eat timeStamp p u = some y) :
    ¬Waits p u := by
  intro hwaits
  cases hs : p.parsingState <;> simp [Waits, hs] at hwaits <;> simp [eat, hs, hwaits] at h

/-- What is complete is eaten, or refused, no matter what follows it. -/
theorem eat_append (h : ¬Waits p u) (w : List UInt8) :
    eat timeStamp p (u ++ w) = (eat timeStamp p u).map fun y => (y.1, y.2 ++ w) := by
  have hline : crlfIndex u ≠ none → ∃ n, crlfIndex u = some n ∧ crlfIndex (u ++ w) = some n ∧
      (u ++ w).take n = u.take n ∧ (u ++ w).drop (n + 2) = u.drop (n + 2) ++ w ∧
      (u ++ w).drop 2 = u.drop 2 ++ w := by
    intro hne
    obtain ⟨n, hn⟩ := Option.ne_none_iff_exists'.mp hne
    have hlen := (crlfIndex_bound hn).1
    exact ⟨n, hn, crlfIndex_append hn w, take_append_left (by omega), drop_append_left hlen,
      drop_append_left (by omega)⟩
  cases hs : p.parsingState with
  | expectRequestLine =>
    rw [Waits, hs] at h
    obtain ⟨n, hn, hn', htake, hdrop, -⟩ := hline h
    simp only [eat, hs, hn, hn', htake, hdrop]
    split <;> rfl
  | expectHeaders =>
    rw [Waits, hs] at h
    obtain ⟨n, hn, hn', htake, hdrop, hdrop2⟩ := hline h
    simp only [eat, hs, hn, hn', htake, hdrop, hdrop2]
    split
    · rfl
    · split <;> rfl
  | expectBody =>
    rw [Waits, hs] at h
    simp only at h
    simp only [eat, hs]
    rw [if_neg h, if_neg (by rw [List.length_append]; omega), take_append_left (by omega),
      drop_append_left (by omega)]
    rfl
  | success => simp [eat, hs]
  | fail => simp [eat, hs]

theorem reaches_append {x y : HttpParser × List UInt8} (hr : Reaches (Eats timeStamp) x y)
    (w : List UInt8) : Reaches (Eats timeStamp) (x.1, x.2 ++ w) (y.1, y.2 ++ w) := by
  induction hr with
  | refl => exact .refl
  | tail _ hstep ih =>
    apply ih.tail
    rw [Eats, eat_append (not_waits_of_eat hstep), hstep]
    rfl

/-- A request that arrives in part is eaten in part. -/
theorem exists_waits (hr : Reaches (Eats timeStamp) (p, u ++ w) (q, [])) (hw : w ≠ []) :
    ∃ p' u', Reaches (Eats timeStamp) (p, u) (p', u') ∧ Waits p' u' ∧
      Reaches (Eats timeStamp) (p', u' ++ w) (q, []) := by
  generalize hx : (p, u ++ w) = x at hr
  induction hr using Relation.ReflTransGen.head_induction_on generalizing p u with
  | refl =>
    have hnil : u ++ w = [] := congrArg Prod.snd hx
    exact absurd (List.append_eq_nil_iff.mp hnil).2 hw
  | head hstep hrest ih =>
    subst hx
    by_cases hwaits : Waits p u
    · exact ⟨p, u, .refl, hwaits, .head hstep hrest⟩
    · have heat := hstep
      rw [Eats, eat_append hwaits, Option.map_eq_some_iff] at heat
      obtain ⟨⟨p₁, u₁⟩, heat, rfl⟩ := heat
      obtain ⟨p', u', hreach, hwaits', hend⟩ := ih rfl
      exact ⟨p', u', .head heat hreach, hwaits', hend⟩

/-- The same parser, had the request been received at `timeStamp`. -/
def stamped (timeStamp : Int) (p : HttpParser) : HttpParser :=
  { p with request.receiveTimePoint := timeStamp }

theorem headersFinished_stamped (timeStamp timeStamp' : Int) (p : HttpParser) :
    p.headersFinished timeStamp' =
      if (p.headersFinished timeStamp).parsingState = .success then
        (p.headersFinished timeStamp).stamped timeStamp'
      else p.headersFinished timeStamp := by
  simp only [headersFinished]
  split
  · rfl
  · split
    · rfl
    · split <;> rfl

/-- The time is noted with the last step only. -/
theorem eat_stamped (timeStamp' : Int) (h : eat timeStamp p u = some (q, v)) :
    eat timeStamp' p u =
      some (if q.parsingState = .success then q.stamped timeStamp' else q, v) := by
  cases hs : p.parsingState with
  | expectRequestLine =>
    simp only [eat, hs] at h ⊢
    split at h
    · cases h
    · split at h
      · cases h
        rfl
      · cases h
  | expectHeaders =>
    simp only [eat, hs] at h ⊢
    split at h
    · cases h
    · split at h
      · cases h
        rename_i hzero
        rw [if_pos hzero, headersFinished_stamped timeStamp]
      · rename_i hne
        rw [if_neg hne]
        split at h
        · cases h
          rfl
        · cases h
  | expectBody =>
    simp only [eat, hs] at h ⊢
    split at h
    · cases h
    · rename_i hlen
      cases h
      rw [if_neg hlen]
      rfl
  | success => simp [eat, hs] at h
  | fail => simp [eat, hs] at h

theorem completes_stamped (timeStamp' : Int) (h : Completes timeStamp p u q v) (hp : p.Reading) :
    Completes timeStamp' p u (q.stamped timeStamp') v := by
  obtain ⟨hs, hr⟩ := h
  refine ⟨hs, ?_⟩
  generalize hx : (p, u) = x at hr
  induction hr using Relation.ReflTransGen.head_induction_on generalizing p u with
  | refl =>
    cases hx
    exact absurd hs hp.1
  | head hstep hrest ih =>
    subst hx
    rename_i y
    obtain ⟨p', u'⟩ := y
    have hstep' : eat timeStamp' p u = _ := eat_stamped timeStamp' hstep
    cases reading_of_completes hrest hs with
    | inl hdone =>
      obtain ⟨hstate, heq⟩ := hdone
      cases heq
      rw [if_pos hstate] at hstep'
      exact .single hstep'
    | inr hp' =>
      rw [if_neg hp'.1] at hstep'
      exact .head hstep' (ih hp' rfl)

end Stream

end HttpParser

end XubinhServer

import XubinhServer.Http.RequestLineGrammar
import XubinhServer.Http.RoundTrip

/-! Which content lengths frame a body. The parser asks `strtol` for a number and checks no more
than that there were digits. -/
namespace XubinhServer.HttpParser

open Decimal MutableSizeTcpBuffer

/-- What the last call of `parse` returns while the chunks are fed. -/
def lastResult (p : HttpParser) (b : MutableSizeTcpBuffer) : List Chunk → Except Halt Bool
  | [] => pure true
  | chunk :: rest => do
    let b ← b.append chunk.data
    let (result, p, b) ← parse chunk.beyond chunk.timeStamp p b
    if !result || p.isSuccess || rest.isEmpty then pure result else lastResult p b rest

/-- The parser `p` has read the lines `head`, as `q` did with them alone in the buffer. -/
structure Heads (q : HttpParser) (head : List UInt8) (p : HttpParser) : Prop where
  state : p.parsingState = .expectHeaders
  read : ∃ beyond timeStamp, ∃ b c : MutableSizeTcpBuffer, b.Valid ∧ b.unread = head ∧
    parse beyond timeStamp q b = .ok (true, p, c) ∧ c.unread = []

/-- Decimal digits that stand for a number below `2 ^ 63`. -/
structure IsLength (value : List UInt8) (n : Nat) : Prop where
  nonempty : value ≠ []
  digits : ∀ b ∈ value, isDigit b = true
  number : Decimal.value value = n
  lt : n < 2 ^ 63

/-- The parser `q` has been given the bytes `u` behind the headers, and `left` is what it has not
consumed of them. -/
structure Framing (value u : List UInt8) (q : HttpParser) (left : List UInt8) (result : Bool) :
    Prop where
  success : ∀ n, IsLength value n → (q.parsingState = .success ↔ n ≤ u.length)
  body : ∀ n, IsLength value n → n ≤ u.length → q.request.body = u.take n ∧ left = u.drop n
  pending : ∀ n, IsLength value n → u.length < n → q.parsingState = .expectBody ∧ left = u
  malformed : (∀ n, ¬IsLength value n) → q.parsingState = .fail ∧ result = false

/-- The content length frames the body, in whatever chunks the request arrives. -/
def Framed (p : HttpParser) (head value : List UInt8) : Prop :=
  ∀ (b : MutableSizeTcpBuffer) (chunks : List Chunk) (u : List UInt8), b.Valid → chunks ≠ [] →
    b.unread ++ stream chunks = head ++ (bytes "\r\n" ++ u) →
    ∃ q c rest result, feed p b chunks = .ok (q, c, rest) ∧
      lastResult p b chunks = .ok result ∧
      Framing value u q (c.unread ++ stream rest) result

section Results

variable {p q : HttpParser} {b c : MutableSizeTcpBuffer} {beyond : Nat → UInt8} {timeStamp : Int}
  {x y : Phase} {result : Bool} {u v w head value : List UInt8}

/-- A phase returns false exactly if it has failed. -/
def Phase.Honest (x : Phase) : Prop :=
  ∀ result, x.returned = some result → (result = false ↔ x.parser.parsingState = .fail)

theorem honest_none : Phase.Honest ⟨none, p, b⟩ := by
  intro result hresult
  cases hresult

theorem honest_true (hs : p.parsingState ≠ .fail) : Phase.Honest ⟨some true, p, b⟩ := by
  intro result hresult
  rw [← Option.some.inj hresult]
  exact ⟨nofun, fun hfailed => absurd hfailed hs⟩

theorem honest_false (hs : p.parsingState = .fail) : Phase.Honest ⟨some false, p, b⟩ := by
  intro result hresult
  rw [← Option.some.inj hresult]
  exact ⟨fun _ => hs, fun _ => rfl⟩

theorem headersFinished_honest (timeStamp : Int) (p : HttpParser) (b : MutableSizeTcpBuffer) :
    Phase.Honest ⟨match (p.headersFinished timeStamp).parsingState with
      | .expectBody => none
      | .fail => some false
      | _ => some true, p.headersFinished timeStamp, b⟩ := by
  split
  · exact nofun
  · exact honest_false ‹_›
  · exact honest_true ‹_›

theorem expectRequestLine_honest (hs : p.parsingState ≠ .fail)
    (h : expectRequestLine beyond p b = .ok x) : x.Honest := by
  simp only [expectRequestLine, bind, Except.bind] at h
  split at h
  · cases h
  · split at h
    · cases h
      exact honest_true hs
    · split at h
      · cases h
      · split at h
        · cases h
          exact honest_none
        · cases h
          exact honest_false rfl

theorem expectHeaders_honest (fuel : Nat) (hs : p.parsingState ≠ .fail)
    (h : expectHeaders beyond timeStamp fuel p b = .ok x) : x.Honest := by
  induction fuel generalizing p b with
  | zero =>
    cases h
    exact honest_true hs
  | succ fuel ih =>
    simp only [expectHeaders, bind, Except.bind] at h
    split at h
    · cases h
    · split at h
      · cases h
        exact honest_true hs
      · split at h
        · cases h
          exact headersFinished_honest timeStamp p _
        · split at h
          · cases h
          · split at h
            · refine ih ?_ h
              exact hs
            · cases h
              exact honest_false rfl

theorem expectBody_honest (hs : p.parsingState ≠ .fail)
    (h : expectBody beyond timeStamp p b = .ok x) : x.Honest := by
  simp only [expectBody, bind, Except.bind] at h
  split at h
  · cases h
    exact honest_true hs
  · split at h
    · cases h
    · split at h
      · cases h
      · cases h
        exact honest_true (fun hfail => by cases hfail)

theorem andThen_honest {state : ParsingState}
    {phase : HttpParser → MutableSizeTcpBuffer → Except Halt Phase} (hx : x.Honest)
    (h : x.andThen state phase = .ok y) (hstate : state ≠ .fail)
    (hphase : ∀ p b x, p.parsingState ≠ .fail → phase p b = .ok x → x.Honest) : y.Honest := by
  rw [Phase.andThen] at h
  split at h
  · rename_i hs
    exact hphase _ _ _ (hs.2 ▸ hstate) h
  · cases h
    exact hx

/-- A call returns false exactly if it leaves the parser in the state `FAIL`. -/
theorem parse_result (h : parse beyond timeStamp p b = .ok (result, q, c)) :
    result = false ↔ q.parsingState = .fail := by
  rw [parse] at h
  split at h
  · rename_i hfail
    cases h
    exact ⟨fun _ => hfail, fun _ => rfl⟩
  · have hstart : (Phase.mk none p b).Honest := honest_none
    cases hline : (Phase.mk none p b).andThen .expectRequestLine (expectRequestLine beyond) with
    | error e =>
      rw [hline] at h
      cases h
    | ok x =>
      have hx := andThen_honest hstart hline (by simp) fun _ _ _ => expectRequestLine_honest
      rw [hline] at h
      simp only [bind, Except.bind] at h
      split at h
      · cases h
      · rename_i y hheaders
        have hy := andThen_honest hx hheaders (by simp) fun _ _ _ => expectHeaders_honest _
        split at h
        · cases h
        · rename_i z hbody
          have hz := andThen_honest hy hbody (by simp) fun _ _ _ => expectBody_honest
          split at h
          · rename_i result' hreturned
            cases h
            exact hz _ hreturned
          · cases h

/-- The chunks end with a call that returns false exactly if they end in the state `FAIL`. -/
theorem lastResult_of_feed (chunks : List Chunk) (hne : chunks ≠ []) {rest : List Chunk}
    (h : feed p b chunks = .ok (q, c, rest)) :
    lastResult p b chunks = .ok (decide (q.parsingState ≠ .fail)) := by
  induction chunks generalizing p b with
  | nil => exact absurd rfl hne
  | cons chunk more ih =>
    rw [feed] at h
    rw [lastResult]
    cases happend : b.append chunk.data with
    | error e =>
      rw [happend] at h
      cases h
    | ok b₁ =>
      rw [happend] at h
      simp only [bind, Except.bind] at h ⊢
      cases hparse : parse chunk.beyond chunk.timeStamp p b₁ with
      | error e =>
        rw [hparse] at h
        cases h
      | ok call =>
        obtain ⟨result, p₁, b₂⟩ := call
        have hresult := parse_result hparse
        have hdecide : result = decide (p₁.parsingState ≠ .fail) := by
          cases result with
          | false => simp [hresult.1 rfl]
          | true => simp [show p₁.parsingState ≠ .fail from fun hf => by cases hresult.2 hf]
        rw [hparse] at h
        dsimp only at h ⊢
        split at h
        · rename_i hstop
          cases h
          rw [if_pos (by rw [hstop]; rfl), ← hdecide]
          rfl
        · rename_i hstop
          cases more with
          | nil =>
            cases h
            rw [if_pos (by simp), ← hdecide]
            rfl
          | cons next more =>
            rw [if_neg (by simpa using hstop)]
            exact ih (List.cons_ne_nil _ _) h

end Results

section Frames

variable {p q r : HttpParser} {b c : MutableSizeTcpBuffer} {beyond : Nat → UInt8} {timeStamp : Int}
  {u v w head value : List UInt8} {n : Nat}

/-- A request line that is accepted, whatever lies behind it, is well formed. -/
theorem wellFormed_of_parse {mem : Nat → UInt8} {a : Nat} {line : List UInt8}
    {request request' : HttpRequest} (h : Holds mem a line)
    (hparse : request.parseRequestLine mem a (a + line.length) = .ok (true, request')) :
    WellFormedRequestLine line ∧ request'.body = request.body := by
  obtain ⟨method, path, version, hline⟩ | hoverrun | ⟨r, hr⟩ := request.parseRequestLine_cases h
  · rw [HttpRequest.parseRequestLine_isRequestLine hline h] at hparse
    cases hparse
    obtain ⟨before, word, gap, gap', word', after, hsplit, hbefore, hword, hgap, hpath, hgap',
      hword', hafter⟩ := hline
    exact ⟨⟨before, word, gap, path, gap', word', after, hsplit, hbefore, hword.isWord, hgap, hpath,
      hgap', hword'.isWord, hafter⟩, rfl⟩
  · rw [HttpRequest.parseRequestLine_overrun hoverrun h] at hparse
    exact nomatch hparse
  · rw [hr] at hparse
    exact nomatch hparse

/-- The request line among the lines that have been read is well formed. -/
theorem Heads.expected (h : Heads q head p) (w : List UInt8) : Expected q (head ++ w) := by
  intro hs n hn
  obtain ⟨beyond, timeStamp, b, c, hb, hunread, hparse, -⟩ := h.read
  subst hunread
  cases hm : crlfIndex b.unread with
  | none =>
    have hwaits : Waits q b.unread := by
      rw [Waits, hs]
      exact hm
    rw [parse_of_waits hb hwaits] at hparse
    cases hparse
    cases hs.symm.trans h.state
  | some m =>
    have hlen := (crlfIndex_bound hm).1
    obtain rfl := Option.some.inj ((crlfIndex_append hm w).symm.trans hn)
    cases hline : q.request.parseRequestLine (b.memory beyond) b.readOffset (b.readOffset + m) with
    | error e =>
      simp [parse, hs, Phase.andThen, expectRequestLine, getNextCrlfPosition_spec hb, hm, hline,
        bind, Except.bind] at hparse
    | ok found =>
      obtain ⟨ok, request⟩ := found
      cases ok with
      | false =>
        have hphase : expectRequestLine beyond q b =
            .ok ⟨some false, { q with parsingState := .fail, request }, b⟩ := by
          simp [expectRequestLine, getNextCrlfPosition_spec hb, hm, hline, bind, Except.bind, pure,
            Except.pure]
        rw [parse_of_requestLine hs hphase (by simp)] at hparse
        cases hparse
      | true =>
        have hholds := holds_unread beyond hb m
        have hlength := length_line hm
        rw [take_append_left (by omega)]
        exact (wellFormed_of_parse hholds (by rw [hlength]; exact hline)).1

theorem Heads.reading (h : Heads q head p) : p.Reading := by
  rw [Reading, h.state]
  simp

theorem Heads.ends (h : Heads q head p) (hq : q.Reading) (timeStamp : Int) :
    Ends timeStamp q head p [] := by
  have hexpected := h.expected []
  rw [List.append_nil] at hexpected
  obtain ⟨beyond, t, b, c, hb, hunread, hparse, hleft⟩ := h.read
  obtain ⟨r, v, hends⟩ := exists_ends t hq hexpected
  obtain ⟨d, -, hd, hparse'⟩ := parse_of_ends beyond hends hb hunread hexpected
  rw [hparse, Except.ok.injEq, Prod.mk.injEq, Prod.mk.injEq] at hparse'
  obtain ⟨-, rfl, rfl⟩ := hparse'
  have hsame := hends.at_time timeStamp
  rw [if_neg (by rw [h.state]; nofun)] at hsame
  rwa [← hleft, hd]

theorem headersFinished_body (timeStamp : Int) (p : HttpParser) :
    (p.headersFinished timeStamp).request.body = p.request.body := by
  simp only [headersFinished]
  split
  · rfl
  · split
    · rfl
    · split
      · rfl
      · rfl

theorem parseHeaderLine_body {request request' : HttpRequest} {mem : Nat → UInt8}
    {start stop : Nat} {ok : Bool}
    (h : request.parseHeaderLine mem start stop = .ok (ok, request')) :
    request'.body = request.body := by
  simp only [HttpRequest.parseHeaderLine, bind, Except.bind] at h
  split at h
  · cases h
    rfl
  · split at h
    · cases h
      rfl
    · split at h
      · cases h
      · split at h
        · cases h
        · cases h
          rfl

/-- A parser that still reads has not written a body. -/
theorem body_of_eat (h : eat timeStamp p u = some (q, v)) (hq : q.Reading) :
    q.request.body = p.request.body := by
  cases hs : p.parsingState with
  | expectRequestLine =>
    simp only [eat, hs] at h
    split at h
    · cases h
    · rename_i n hn
      split at h
      · rename_i request hline
        cases h
        have hlength := length_line hn
        have hholds := holds_lineMemory (u.take n)
        exact (wellFormed_of_parse hholds (by rw [hlength, Nat.zero_add]; exact hline)).2
      · cases h
  | expectHeaders =>
    simp only [eat, hs] at h
    split at h
    · cases h
    · split at h
      · cases h
        exact headersFinished_body timeStamp p
      · split at h
        · rename_i request hline
          cases h
          exact parseHeaderLine_body hline
        · cases h
  | expectBody =>
    simp only [eat, hs] at h
    split at h
    · cases h
    · cases h
      exact absurd rfl hq.1
  | success => simp [eat, hs] at h
  | fail => simp [eat, hs] at h

theorem Ends.body (h : Ends timeStamp p u q v) (hq : q.Reading) :
    q.request.body = p.request.body := by
  induction h with
  | waits => rfl
  | refused hrefuse => exact absurd (not_reading_of_refuse hrefuse) hq.2
  | done _ hq' => exact absurd hq hq'
  | step heat hr _ ih => exact (ih hq).trans (body_of_eat heat hr)

/-- Lines that the parser eats up to the headers are such a head. -/
theorem heads_of_ends (hexpected : Expected q head) (h : Ends timeStamp q head p [])
    (hs : p.parsingState = .expectHeaders) : Heads q head p := by
  obtain ⟨b, -, hb, hunread⟩ := append_spec valid_new head
  rw [unread_new, List.nil_append] at hunread
  obtain ⟨c, -, hc, hparse⟩ := parse_of_ends (fun _ => 0) h hb hunread hexpected
  rw [hs] at hparse
  exact ⟨hs, _, timeStamp, b, c, hb, hunread, hparse, hc⟩

theorem IsLength.strtol (h : IsLength value n) : strtol (cStr value) = ((n : Int), true) := by
  rw [strtol_digits h.nonempty h.digits, h.number, min_eq_left (by have := h.lt; omega)]

theorem IsLength.unique {m : Nat} (h : IsLength value n) (h' : IsLength value m) : m = n :=
  h'.number.symm.trans h.number

/-- What is fed is what the parser eats, behind the head. -/
theorem feed_of_head (previous : HttpParser) (h : Heads previous.reset head p)
    (hends : Ends 0 p (bytes "\r\n" ++ u) r v) {chunks : List Chunk} (hb : b.Valid)
    (hne : chunks ≠ []) (hstream : b.unread ++ stream chunks = head ++ (bytes "\r\n" ++ u)) :
    ∃ q c rest, feed previous.reset b chunks = .ok (q, c, rest) ∧
      lastResult previous.reset b chunks = .ok (decide (q.parsingState ≠ .fail)) ∧
      q.parsingState = r.parsingState ∧ q.request.body = r.request.body ∧
      c.unread ++ stream rest = v := by
  have hreading := reading_reset previous
  have hall := ((h.ends hreading 0).append (bytes "\r\n" ++ u)).1 h.reading r v hends
  rw [← hstream] at hall
  obtain ⟨q, c, rest, hfeed, hq, hleft⟩ := feed_of_ends chunks hb hreading
    (fun hnil => absurd hnil hne) (hstream ▸ h.expected _) hall
  obtain ⟨hstate, -, hbody⟩ := fields_of_stamped hq
  exact ⟨q, c, rest, hfeed, lastResult_of_feed chunks hne hfeed, hstate, hbody, hleft⟩

theorem Heads.body_eq_nil {previous : HttpParser} (h : Heads previous.reset head p) :
    p.request.body = [] :=
  (h.ends (reading_reset previous) 0).body h.reading

theorem framed_of_isLength (previous : HttpParser) (h : Heads previous.reset head p)
    (hpost : p.request.method = .post)
    (hfind : p.request.headers.find (bytes "Content-Length") = some value)
    (hvalue : IsLength value n) : Framed previous.reset head value := by
  intro b chunks u hb hne hstream
  have hempty := h.body_eq_nil
  have hends := ends_number 0 h.state hpost hempty hfind hvalue.strtol u
  have hlength : ((n : Int) % 2 ^ 64).toNat = n := by
    have hlt := hvalue.lt
    omega
  rw [hlength] at hends
  have hnot : ¬∀ m, ¬IsLength value m := fun hnone => hnone n hvalue
  split at hends
  · rename_i hle
    obtain ⟨r, hends, hstate, -, hbody⟩ := hends
    obtain ⟨q, c, rest, hfeed, hlast, hq, hqbody, hleft⟩ :=
      feed_of_head previous h hends hb hne hstream
    refine ⟨q, c, rest, _, hfeed, hlast, ?_, ?_, ?_, fun hnone => absurd hnone hnot⟩
    · intro m hm
      rw [hvalue.unique hm, hq, hstate]
      exact ⟨fun _ => hle, fun _ => rfl⟩
    · intro m hm _
      rw [hvalue.unique hm, hqbody, hbody, hleft]
      exact ⟨rfl, rfl⟩
    · intro m hm hlt
      rw [hvalue.unique hm] at hlt
      omega
  · rename_i hlt
    obtain ⟨r, hends, hstate⟩ := hends
    obtain ⟨q, c, rest, hfeed, hlast, hq, -, hleft⟩ := feed_of_head previous h hends hb hne hstream
    refine ⟨q, c, rest, _, hfeed, hlast, ?_, ?_, ?_, fun hnone => absurd hnone hnot⟩
    · intro m hm
      rw [hvalue.unique hm, hq, hstate]
      exact ⟨nofun, fun hle => absurd hle hlt⟩
    · intro m hm hle
      rw [hvalue.unique hm] at hle
      exact absurd hle hlt
    · intro m hm _
      exact ⟨by rw [hq, hstate], hleft⟩

theorem framed_of_noDigits (previous : HttpParser) (h : Heads previous.reset head p)
    (hpost : p.request.method = .post)
    (hfind : p.request.headers.find (bytes "Content-Length") = some value)
    (hdigits : (strtol (cStr value)).2 = false) : Framed previous.reset head value := by
  intro b chunks u hb hne hstream
  have hfail : (p.headersFinished 0).parsingState = .fail := by
    simp only [headersFinished, hpost, if_true, hfind, hdigits, Bool.not_false]
  have hends : Ends 0 p (bytes "\r\n" ++ u) (p.headersFinished 0) u :=
    .done (eat_blank 0 h.state) fun hreading => hreading.2 hfail
  obtain ⟨q, c, rest, hfeed, hlast, hq, -, -⟩ := feed_of_head previous h hends hb hne hstream
  have hnone : ∀ n, ¬IsLength value n := by
    intro n hn
    rw [hn.strtol] at hdigits
    cases hdigits
  refine ⟨q, c, rest, _, hfeed, hlast, fun n hn => absurd hn (hnone n),
    fun n hn => absurd hn (hnone n), fun n hn => absurd hn (hnone n), fun _ => ⟨?_, ?_⟩⟩
  · rw [hq, hfail]
  · rw [hq, hfail]
    rfl

/-- Where `strtol` finds digits in what is no length, the parser takes the number that it has
found. -/
theorem not_framed (previous : HttpParser) (h : Heads previous.reset head p)
    (hpost : p.request.method = .post)
    (hfind : p.request.headers.find (bytes "Content-Length") = some value)
    (hnone : ∀ n, ¬IsLength value n) (hdigits : (strtol (cStr value)).2 = true) :
    ¬Framed previous.reset head value := by
  intro hframed
  have hempty := h.body_eq_nil
  have hstream : MutableSizeTcpBuffer.new.unread ++
      stream [⟨head ++ bytes "\r\n", 0, fun _ => 0⟩] = head ++ (bytes "\r\n" ++ []) := by
    simp [stream]
  obtain ⟨q, c, rest, result, hfeed, -, hframing⟩ :=
    hframed .new _ [] valid_new (List.cons_ne_nil _ _) hstream
  have hfail := (hframing.malformed hnone).1
  have haccepted : ∃ r v, Ends 0 p (bytes "\r\n" ++ []) r v ∧ r.parsingState ≠ .fail := by
    have hends := ends_number 0 h.state hpost hempty hfind
      (z := (strtol (cStr value)).1) (by rw [← hdigits]) []
    split at hends
    · obtain ⟨r, hends, hstate, -⟩ := hends
      exact ⟨r, _, hends, by rw [hstate]; simp⟩
    · obtain ⟨r, hends, hstate⟩ := hends
      exact ⟨r, _, hends, by rw [hstate]; simp⟩
  obtain ⟨r, v, hends, hstate⟩ := haccepted
  obtain ⟨q', c', rest', hfeed', -, hq', -⟩ :=
    feed_of_head previous h hends valid_new (List.cons_ne_nil _ _) hstream
  rw [hfeed, Except.ok.injEq, Prod.mk.injEq] at hfeed'
  exact hstate (hq'.symm.trans (hfeed'.1 ▸ hfail))

/-- A request that posts, to a parser that has been reset: the content length frames the body
exactly if it is a number below `2 ^ 63` in digits, or if `strtol` finds no digits in it. -/
theorem framed_iff (previous p : HttpParser) (head value : List UInt8)
    (h : Heads previous.reset head p) (hpost : p.request.method = .post)
    (hfind : p.request.headers.find (bytes "Content-Length") = some value) :
    Framed previous.reset head value ↔
      (∃ n, IsLength value n) ∨ (strtol (cStr value)).2 = false := by
  constructor
  · intro hframed
    by_cases hvalue : ∃ n, IsLength value n
    · exact .inl hvalue
    · cases hdigits : (strtol (cStr value)).2 with
      | false => exact .inr rfl
      | true =>
        have hnone : ∀ n, ¬IsLength value n := fun n hn => hvalue ⟨n, hn⟩
        exact absurd hframed (not_framed previous h hpost hfind hnone hdigits)
  · intro hvalue
    cases hvalue with
    | inl hvalue =>
      obtain ⟨n, hn⟩ := hvalue
      exact framed_of_isLength previous h hpost hfind hn
    | inr hdigits => exact framed_of_noDigits previous h hpost hfind hdigits

/-- A request line and one header line. -/
theorem heads_posted (hvalue : IsHeaderValue value) :
    Heads HttpParser.new.reset
      (bytes "POST / HTTP/1.1" ++ (bytes "\r\n" ++ (bytes "Content-Length" ++ (58 :: value) ++
        bytes "\r\n" ++ [])))
      { posted with request.headers := [(bytes "Content-Length", value)] } := by
  have hkey : IsHeaderKey (bytes "Content-Length") := by decide
  have hends : Ends 0 posted (bytes "Content-Length" ++ (58 :: value) ++ bytes "\r\n" ++ [])
      { posted with request.headers := [(bytes "Content-Length", value)] } [] :=
    .step (eat_header rfl hkey hvalue) ⟨nofun, nofun⟩ (.waits rfl)
  exact heads_of_ends expected_post (.step eat_post ⟨nofun, nofun⟩ hends) rfl

theorem framed_iff_five :
    Framed HttpParser.new.reset
      (bytes "POST / HTTP/1.1" ++ (bytes "\r\n" ++ (bytes "Content-Length" ++
        (58 :: bytes "5") ++ bytes "\r\n" ++ []))) (bytes "5") ↔
      (∃ n, IsLength (bytes "5") n) ∨ (strtol (cStr (bytes "5"))).2 = false :=
  framed_iff .new _ _ _ (heads_posted (by decide)) rfl rfl

/-- A negative length, which the cast makes a huge one: the parser waits for a body. -/
theorem not_framed_negative :
    ¬Framed HttpParser.new.reset
      (bytes "POST / HTTP/1.1" ++ (bytes "\r\n" ++ (bytes "Content-Length" ++
        (58 :: bytes "-1") ++ bytes "\r\n" ++ []))) (bytes "-1") := by
  refine not_framed .new (heads_posted (by decide)) rfl rfl
    (fun n hn => ?_) (by decide)
  exact absurd (hn.digits 45 (by decide)) (by decide)

end Frames

end XubinhServer.HttpParser

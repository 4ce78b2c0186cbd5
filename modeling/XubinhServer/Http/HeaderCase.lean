import XubinhServer.Http.BodyLength
import XubinhServer.Http.HeaderLine

/-! Header names in upper and lower case. The parser stores the keys as they are sent, and looks
them up as they are spelled. -/
namespace XubinhServer

open MutableSizeTcpBuffer

/-- `::tolower` in the C locale. -/
def tolower (b : UInt8) : UInt8 := if 65 ≤ b ∧ b ≤ 90 then b + 32 else b

def lowercase (s : List UInt8) : List UInt8 := s.map tolower

/-- Nothing but the case of letters in front of the first colon differs. -/
def SameButCase (line line' : List UInt8) : Prop :=
  lowercase (line.takeWhile (· ≠ 58)) = lowercase (line'.takeWhile (· ≠ 58)) ∧
    line.dropWhile (· ≠ 58) = line'.dropWhile (· ≠ 58)

def HttpRequest.getHeader (r : HttpRequest) (key : List UInt8) : List UInt8 :=
  (r.headers.find key).getD []

/-- A request with its header lines, and what comes behind the blank line. -/
structure RequestText where
  requestLine : List UInt8
  headerLines : List (List UInt8)
  body : List UInt8

namespace RequestText

def text (t : RequestText) : List UInt8 :=
  t.requestLine ++ (bytes "\r\n" ++ (linesText t.headerLines ++ (bytes "\r\n" ++ t.body)))

structure WellFormed (t : RequestText) : Prop where
  words : WellFormedRequestLine t.requestLine
  whole : crlfIndex t.requestLine = none
  lines : ∀ line ∈ t.headerLines, IsLine line

/-- The requests differ in the case of letters in their header names only. -/
structure Alike (t t' : RequestText) : Prop where
  requestLine : t'.requestLine = t.requestLine
  headerLines : List.Forall₂ SameButCase t.headerLines t'.headerLines
  body : t'.body = t.body

end RequestText

/-- The value that is given last under a name in exactly this spelling. -/
def given (lines : List (List UInt8)) (name : List UInt8) : Option (List UInt8) :=
  Headers.find (storedFields lines).1.reverse name

/-- Whatever non-empty value is given last under a name, both requests give under every spelling of
it; and a request that posts has the length under the parser's spelling in both or in neither. -/
structure EverySpelling (method : HttpMethodType) (lines lines' : List (List UInt8)) : Prop where
  values : ∀ name value, value ≠ [] →
    given lines name = some value ∨ given lines' name = some value →
      ∀ spelling, lowercase spelling = lowercase name →
        given lines spelling = some value ∧ given lines' spelling = some value
  length : method = .post → (storedFields lines).2 = [] →
    ((given lines (bytes "Content-Length")).isSome ↔
      (given lines' (bytes "Content-Length")).isSome)

namespace HttpParser

/-- What the parsers `p` and `p'` show behind requests of which they have consumed `n` and `n'`
bytes. -/
structure SameOutcome (p p' : HttpParser) (n n' : Nat) : Prop where
  state : p'.parsingState = p.parsingState
  body : p'.request.body = p.request.body
  consumed : n' = n
  needClose : p'.request.needClose = p.request.needClose
  headers : ∀ key key', lowercase key' = lowercase key →
    p'.request.getHeader key' = p.request.getHeader key

/-- Two requests have the same outcome, in whatever chunks they arrive. -/
def CaseInsensitive (previous : HttpParser) (t t' : RequestText) : Prop :=
  ∀ (b b' : MutableSizeTcpBuffer) (chunks chunks' : List Chunk), b.Valid → b'.Valid →
    chunks ≠ [] → chunks' ≠ [] → b.unread ++ stream chunks = t.text →
    b'.unread ++ stream chunks' = t'.text →
    ∃ p c rest p' c' rest', feed previous.reset b chunks = .ok (p, c, rest) ∧
      feed previous.reset b' chunks' = .ok (p', c', rest') ∧
      SameOutcome p p' (t.text.length - (c.unread ++ stream rest).length)
        (t'.text.length - (c'.unread ++ stream rest').length)

end HttpParser

section Case

variable {s line line' : List UInt8} {lines lines' : List (List UInt8)}

theorem tolower_toNat (b : UInt8) :
    (tolower b).toNat = if 65 ≤ b.toNat ∧ b.toNat ≤ 90 then b.toNat + 32 else b.toNat := by
  have hlt := b.toNat_lt
  simp only [tolower, UInt8.le_iff_toNat_le]
  change (if 65 ≤ b.toNat ∧ b.toNat ≤ 90 then b + 32 else b).toNat = _
  split
  · rw [UInt8.toNat_add]
    change (b.toNat + 32) % 256 = b.toNat + 32
    omega
  · rfl

/-- A byte that is no letter has no other case. -/
theorem tolower_eq_iff {b c : UInt8} (hc : c.toNat < 65) : tolower b = c ↔ b = c := by
  have h := tolower_toNat b
  rw [← UInt8.toNat_inj, ← UInt8.toNat_inj, h]
  split <;> omega

theorem isspace_tolower (b : UInt8) : isspace (tolower b) = isspace b := by
  have h := tolower_toNat b
  have hiff : isspace (tolower b) = true ↔ isspace b = true := by
    simp only [isspace, Bool.or_eq_true, Bool.and_eq_true, beq_iff_eq, decide_eq_true_eq,
      UInt8.le_iff_toNat_le, ← UInt8.toNat_inj, h]
    change _ = 32 ∨ 9 ≤ _ ∧ _ ≤ 13 ↔ _ = 32 ∨ 9 ≤ _ ∧ _ ≤ 13
    split <;> omega
  exact Bool.eq_iff_iff.mpr hiff

theorem trim_lowercase (s : List UInt8) : trim (lowercase s) = lowercase (trim s) := by
  have hcomp : isspace ∘ tolower = isspace := funext isspace_tolower
  simp only [trim, lowercase, List.rdropWhile, ← List.map_reverse, List.dropWhile_map, hcomp]

theorem crlfIndex_lowercase (s : List UInt8) : crlfIndex (lowercase s) = crlfIndex s := by
  induction s with
  | nil => rfl
  | cons x s ih =>
    cases s with
    | nil => rfl
    | cons y s =>
      have hcr : tolower x = 13 ↔ x = 13 := tolower_eq_iff (by decide)
      have hlf : tolower y = 10 ↔ y = 10 := tolower_eq_iff (by decide)
      change crlfIndex (tolower x :: tolower y :: lowercase s) = _
      rw [crlfIndex, crlfIndex]
      change (if tolower x = 13 ∧ tolower y = 10 then some 0
        else (crlfIndex (lowercase (y :: s))).map (· + 1)) = _
      rw [ih]
      simp only [hcr, hlf]

theorem SameButCase.lowercase_eq (h : SameButCase line line') :
    lowercase line = lowercase line' := by
  have hsplit := List.takeWhile_append_dropWhile (p := (· ≠ (58 : UInt8))) (l := line)
  have hsplit' := List.takeWhile_append_dropWhile (p := (· ≠ (58 : UInt8))) (l := line')
  rw [← hsplit, ← hsplit', lowercase, lowercase, List.map_append, List.map_append, h.2]
  congr 1
  exact h.1

theorem SameButCase.length_eq (h : SameButCase line line') : line'.length = line.length := by
  have hlength := congrArg List.length h.lowercase_eq
  rw [lowercase, lowercase, List.length_map, List.length_map] at hlength
  exact hlength.symm

theorem SameButCase.isLine (h : SameButCase line line') (hline : IsLine line) : IsLine line' := by
  constructor
  · intro hnil
    have hlength := h.length_eq
    rw [hnil, List.length_nil] at hlength
    exact hline.nonempty (List.length_eq_zero_iff.mp hlength.symm)
  · rw [← crlfIndex_lowercase, ← h.lowercase_eq, crlfIndex_lowercase]
    exact hline.whole

/-- Either line has a field if the other has one. -/
theorem SameButCase.headerField_none (h : SameButCase line line') :
    headerField line' = none ↔ headerField line = none := by
  have hkey : trim (line'.takeWhile (· ≠ 58)) = [] ↔ trim (line.takeWhile (· ≠ 58)) = [] := by
    have htrim := congrArg trim h.1
    rw [trim_lowercase, trim_lowercase] at htrim
    have hlength := congrArg List.length htrim
    rw [lowercase, lowercase, List.length_map, List.length_map] at hlength
    rw [← List.length_eq_zero_iff, ← List.length_eq_zero_iff, hlength]
  rw [headerField, headerField, ← h.2]
  cases line.dropWhile (· ≠ 58) with
  | nil => exact Iff.rfl
  | cons colon value =>
    by_cases hnil : trim (line.takeWhile (· ≠ 58)) = []
    · simp only [if_pos hnil, if_pos (hkey.mpr hnil)]
    · have hnil' := mt hkey.mp hnil
      simp only [if_neg hnil, if_neg hnil']
      exact ⟨by simp, by simp⟩

/-- The parser stops at the same line of both requests. -/
theorem storedFields_rest (h : List.Forall₂ SameButCase lines lines') :
    List.Forall₂ SameButCase (storedFields lines).2 (storedFields lines').2 := by
  induction h with
  | nil => exact .nil
  | @cons line line' lines lines' hline hlines ih =>
    have hnone := hline.headerField_none
    rw [storedFields, storedFields]
    cases hfield : headerField line with
    | none =>
      rw [hnone.mpr hfield]
      exact .cons hline hlines
    | some field =>
      cases hfield' : headerField line' with
      | none => exact absurd (hnone.mp hfield') (by rw [hfield]; simp)
      | some field' => exact ih

theorem length_linesText (h : List.Forall₂ SameButCase lines lines') :
    (linesText lines').length = (linesText lines).length := by
  induction h with
  | nil => rfl
  | @cons line line' lines lines' hline _ ih =>
    simp only [linesText, List.flatMap_cons, List.length_append] at ih ⊢
    rw [hline.length_eq, ih]

theorem isLine_of_alike (h : List.Forall₂ SameButCase lines lines')
    (hlines : ∀ line ∈ lines, IsLine line) : ∀ line ∈ lines', IsLine line := by
  induction h with
  | nil => exact nofun
  | @cons line line' lines lines' hline _ ih =>
    intro other hother
    cases hother with
    | head => exact hline.isLine (hlines line List.mem_cons_self)
    | tail _ hmem =>
      exact ih (fun line hmem => hlines line (List.mem_cons_of_mem _ hmem)) other hmem

theorem EverySpelling.given_iff {method : HttpMethodType}
    (h : EverySpelling method lines lines') (name : List UInt8) {value : List UInt8}
    (hvalue : value ≠ []) :
    given lines' name = some value ↔ given lines name = some value := by
  constructor
  · intro hgiven
    exact (h.values name value hvalue (.inr hgiven) name rfl).1
  · intro hgiven
    exact (h.values name value hvalue (.inl hgiven) name rfl).2

theorem EverySpelling.given_length (h : EverySpelling .post lines lines')
    (hall : (storedFields lines).2 = []) :
    given lines' (bytes "Content-Length") = given lines (bytes "Content-Length") := by
  have hiff := h.length rfl hall
  cases hgiven : given lines (bytes "Content-Length") with
  | none =>
    rw [hgiven] at hiff
    exact Option.not_isSome_iff_eq_none.mp fun hsome => nomatch hiff.mpr hsome
  | some x =>
    by_cases hnil : x = []
    · rw [hgiven] at hiff
      obtain ⟨y, hy⟩ := Option.isSome_iff_exists.mp (hiff.mp rfl)
      by_cases hynil : y = []
      · rw [hy, hnil, hynil]
      · rw [(h.given_iff _ hynil).mp hy, Option.some.injEq] at hgiven
        rw [hy, hgiven]
    · exact (h.given_iff _ hnil).mpr hgiven

end Case

namespace Headers

variable {h order : Headers} {key value name : List UInt8}

theorem find_assign : (h.assign key value).find name =
    if key = name then some value else h.find name := by
  induction h with
  | nil =>
    by_cases hk : key = name
    · simp [assign, find, hk]
    · simp [assign, find, hk]
  | cons e rest ih =>
    rw [assign]
    by_cases he : e.1 = key
    · rw [if_pos (by simpa using he)]
      by_cases hk : key = name
      · simp [find, hk]
      · have hen : e.1 ≠ name := fun heq => hk (he ▸ heq)
        simp [find, hk, hen]
    · rw [if_neg (by simpa using he)]
      by_cases hen : e.1 = name
      · have hk : key ≠ name := fun heq => he (hen.trans heq.symm)
        simp [find, hen, hk]
      · have hcons : ∀ l : Headers, find (e :: l) name = l.find name := by
          intro l
          simp [find, hen]
        rw [hcons, hcons, ih]

/-- The entry that comes last wins. -/
theorem find_assignAll :
    (h.assignAll order).find name = (find order.reverse name).or (h.find name) := by
  induction order generalizing h with
  | nil => rfl
  | cons e rest ih =>
    have hcons : (h.assignAll (e :: rest)) = (h.assign e.1 e.2).assignAll rest := rfl
    have hlast : find (e :: rest).reverse name =
        (find rest.reverse name).or (if e.1 = name then some e.2 else none) := by
      rw [List.reverse_cons, find, List.find?_append, Option.map_or]
      congr 1
      by_cases he : e.1 = name
      · simp [he]
      · simp [he]
    rw [hcons, ih, find_assign, hlast, Option.or_assoc]
    congr 1
    split
    · rfl
    · rfl

end Headers

theorem find_storedFields (lines : List (List UInt8)) (name : List UInt8) :
    (Headers.assignAll [] (storedFields lines).1).find name = given lines name := by
  rw [Headers.find_assignAll, given]
  exact Option.or_none

namespace HttpRequest

variable {r r' : HttpRequest} {mem : Nat → UInt8} {start stop pos : Nat} {ok : Bool}

theorem setMethodType_headers (h : r.setMethodType mem start stop = .ok (ok, r')) :
    r'.headers = r.headers := by
  simp only [setMethodType, bind, Except.bind] at h
  split at h
  · cases h
  · split at h
    · cases h
      rfl
    · split at h
      · cases h
        rfl
      · cases h
        rfl

theorem setVersionType_headers (h : r.setVersionType mem start stop = .ok (ok, r')) :
    r'.headers = r.headers := by
  simp only [setVersionType, bind, Except.bind] at h
  split at h
  · cases h
  · split at h
    · cases h
      rfl
    · split at h
      · cases h
        rfl
      · cases h
        rfl

theorem parseVersion_headers (h : r.parseVersion mem pos stop = .ok (ok, r')) :
    r'.headers = r.headers := by
  simp only [parseVersion] at h
  split at h
  · cases h
    rfl
  · exact setVersionType_headers h

theorem parsePath_headers (h : r.parsePath mem pos start stop = .ok (ok, r')) :
    r'.headers = r.headers := by
  simp only [parsePath, setPath, bind, Except.bind] at h
  split at h
  · cases h
    rfl
  · split at h
    · cases h
      rfl
    · split at h
      · cases h
      · rename_i path hpath
        split at hpath
        · cases hpath
        · cases hpath
          have hversion := parseVersion_headers h
          exact hversion

/-- A request line leaves the headers alone. -/
theorem parseRequestLine_headers (h : r.parseRequestLine mem start stop = .ok (ok, r')) :
    r'.headers = r.headers := by
  simp only [parseRequestLine, bind, Except.bind] at h
  split at h
  · cases h
    rfl
  · split at h
    · cases h
      rfl
    · split at h
      · cases h
      · rename_i found hmethod
        split at h
        · exact (parsePath_headers h).trans (setMethodType_headers hmethod)
        · cases h
          exact setMethodType_headers hmethod

end HttpRequest

namespace HttpParser

variable {p q r r' : HttpParser} (timeStamp : Int) {u v v' : List UInt8} {h g : Headers}
  {t t' : RequestText} {lines : List (List UInt8)} {n n' : Nat}

def withHeaders (p : HttpParser) (h : Headers) : HttpParser :=
  { p with request.headers := h }

/-- The parser looks at two headers only. -/
theorem headersFinished_withHeaders
    (hclose : g.find (bytes "Connection") = some (bytes "close") ↔
      h.find (bytes "Connection") = some (bytes "close"))
    (hlength : p.request.method = .post →
      g.find (bytes "Content-Length") = h.find (bytes "Content-Length")) :
    (p.withHeaders g).headersFinished timeStamp =
      ((p.withHeaders h).headersFinished timeStamp).withHeaders g := by
  have hflag : (g.find (bytes "Connection") == some (bytes "close")) =
      (h.find (bytes "Connection") == some (bytes "close")) := by
    rw [Bool.eq_iff_iff, beq_iff_eq, beq_iff_eq]
    exact hclose
  have hfind : (if p.request.method = .post then g.find (bytes "Content-Length") else none) =
      if p.request.method = .post then h.find (bytes "Content-Length") else none := by
    split
    · rename_i hpost
      exact hlength hpost
    · rfl
  dsimp only [headersFinished, withHeaders]
  rw [hflag, hfind]
  generalize (if p.request.method = .post then h.find (bytes "Content-Length") else none) = found
  cases found with
  | none => rfl
  | some value =>
    dsimp only
    split
    · rfl
    · split
      · rfl
      · rfl

/-- The blank line and what comes behind it, with headers in which the parser finds the same. -/
theorem ends_blank_withHeaders (hs : p.parsingState = .expectHeaders)
    (hclose : g.find (bytes "Connection") = some (bytes "close") ↔
      h.find (bytes "Connection") = some (bytes "close"))
    (hlength : p.request.method = .post →
      g.find (bytes "Content-Length") = h.find (bytes "Content-Length")) (u : List UInt8) :
    ∃ (q : HttpParser) (v : List UInt8),
      Ends timeStamp (p.withHeaders h) (bytes "\r\n" ++ u) (q.withHeaders h) v ∧
      Ends timeStamp (p.withHeaders g) (bytes "\r\n" ++ u) (q.withHeaders g) v := by
  have heat := eat_blank (p := p.withHeaders h) (u := u) timeStamp hs
  have heat' := eat_blank (p := p.withHeaders g) (u := u) timeStamp hs
  rw [headersFinished_withHeaders timeStamp hclose hlength] at heat'
  have hsame : (p.withHeaders h).headersFinished timeStamp =
      ((p.withHeaders h).headersFinished timeStamp).withHeaders h :=
    headersFinished_withHeaders timeStamp Iff.rfl fun _ => rfl
  have hstates := headersFinished_state timeStamp (p.withHeaders h)
  generalize (p.withHeaders h).headersFinished timeStamp = q at heat heat' hsame hstates
  rw [hsame] at heat
  by_cases hbody : q.parsingState = .expectBody
  · have hreading : q.Reading := ⟨by rw [hbody]; nofun, by rw [hbody]; nofun⟩
    by_cases hlt : u.length < q.bodyLength
    · have hwaits : ∀ headers, Waits (q.withHeaders headers) u := by
        intro headers
        rw [Waits, withHeaders, hbody]
        exact hlt
      exact ⟨q, u, .step heat hreading (.waits (hwaits h)),
        .step heat' hreading (.waits (hwaits g))⟩
    · have hdone : ∀ headers, eat timeStamp (q.withHeaders headers) u =
          some (({ q with request.body := u.take q.bodyLength }.succeed timeStamp).withHeaders
            headers, u.drop q.bodyLength) := by
        intro headers
        rw [eat, withHeaders, hbody]
        exact if_neg hlt
      exact ⟨{ q with request.body := u.take q.bodyLength }.succeed timeStamp, _,
        .step heat hreading (.done (hdone h) fun hreading => hreading.1 rfl),
        .step heat' hreading (.done (hdone g) fun hreading => hreading.1 rfl)⟩
  · have hnot : ¬q.Reading := by
      intro hreading
      obtain hexpects | hsuccess | hfail := hstates
      · exact hbody hexpects
      · exact hreading.1 hsuccess
      · exact hreading.2 hfail
    exact ⟨q, u, .done heat hnot, .done heat' hnot⟩

/-- The blank line ends a request without a length, and it fails one with an empty length. -/
theorem ends_blank_missing (hs : p.parsingState = .expectHeaders)
    (hfind : p.request.headers.find (bytes "Content-Length") = none) (u : List UInt8) :
    Ends timeStamp p (bytes "\r\n" ++ u) (p.headersFinished timeStamp) u ∧
      (p.headersFinished timeStamp).parsingState = .success := by
  have hstate : (p.headersFinished timeStamp).parsingState = .success := by
    simp only [headersFinished, hfind, ite_self]
    rfl
  exact ⟨.done (eat_blank timeStamp hs) fun hreading => hreading.1 hstate, hstate⟩

theorem ends_blank_empty (hs : p.parsingState = .expectHeaders) (hpost : p.request.method = .post)
    (hfind : p.request.headers.find (bytes "Content-Length") = some []) (u : List UInt8) :
    Ends timeStamp p (bytes "\r\n" ++ u) (p.headersFinished timeStamp) u ∧
      (p.headersFinished timeStamp).parsingState = .fail := by
  have hstate : (p.headersFinished timeStamp).parsingState = .fail := by
    simp only [headersFinished, hpost, if_true, hfind]
    rfl
  exact ⟨.done (eat_blank timeStamp hs) fun hreading => hreading.2 hstate, hstate⟩

theorem SameOutcome.of_stamped {q' p' : HttpParser} (h : SameOutcome q q' n n')
    (hp : p.stamped 0 = q.stamped 0) (hp' : p'.stamped 0 = q'.stamped 0) :
    SameOutcome p p' n n' := by
  simp only [stamped, HttpParser.mk.injEq, HttpRequest.mk.injEq] at hp hp'
  obtain ⟨hstate, _, _, _, _, _, hheaders, hclose, hbody⟩ := hp
  obtain ⟨hstate', _, _, _, _, _, hheaders', hclose', hbody'⟩ := hp'
  refine ⟨?_, ?_, h.consumed, ?_, fun key key' hkey => ?_⟩
  · rw [hstate, hstate', h.state]
  · rw [hbody, hbody', h.body]
  · rw [hclose, hclose', h.needClose]
  · rw [HttpRequest.getHeader, HttpRequest.getHeader, hheaders, hheaders']
    exact h.headers key key' hkey

/-- The parser behind a request line that it accepts. -/
def accepting (previous : HttpParser) (method : HttpMethodType) (path : List UInt8)
    (version : HttpVersionType) : HttpParser :=
  { previous.reset with
    parsingState := .expectHeaders
    request := { previous.reset.request with method, path, version } }

section RequestTexts

variable (previous : HttpParser) {method : HttpMethodType} {path : List UInt8}
  {version : HttpVersionType}

theorem crlfIndex_text (ht : t.WellFormed) : crlfIndex t.text = some t.requestLine.length :=
  crlfIndex_of_whole ht.whole _

theorem expected_text (ht : t.WellFormed) : Expected p t.text := by
  intro _ n hn
  rw [crlfIndex_text ht] at hn
  cases hn
  rw [RequestText.text, List.take_left]
  exact ht.words

theorem eat_text (ht : t.WellFormed) (hline : IsRequestLine t.requestLine method path version) :
    eat timeStamp previous.reset t.text = some (previous.accepting method path version,
      linesText t.headerLines ++ (bytes "\r\n" ++ t.body)) := by
  have hparse := HttpRequest.parseRequestLine_isRequestLine (r := previous.reset.request) hline
    (holds_lineMemory t.requestLine)
  have htake : t.text.take t.requestLine.length = t.requestLine := List.take_left
  have hdrop : t.text.drop (t.requestLine.length + 2) =
      linesText t.headerLines ++ (bytes "\r\n" ++ t.body) := by
    rw [RequestText.text, ← List.append_assoc,
      List.drop_left' (by rw [List.length_append]; rfl)]
  rw [Nat.zero_add] at hparse
  have hs : previous.reset.parsingState = .expectRequestLine := rfl
  simp only [eat, hs, crlfIndex_text ht, htake, hparse, hdrop]
  rfl

/-- Where the request line is not accepted, nothing is consumed. -/
theorem refuse_text (ht : t.WellFormed)
    (hline : ∀ method path version, ¬IsRequestLine t.requestLine method path version) :
    ∃ request, request.headers = [] ∧
      previous.reset.request.parseRequestLine (lineMemory t.requestLine) 0 t.requestLine.length =
        .ok (false, request) ∧
      Ends timeStamp previous.reset t.text
        { previous.reset with parsingState := .fail, request } t.text := by
  have hholds := holds_lineMemory t.requestLine
  obtain ⟨ok, request, hok⟩ := HttpRequest.parseRequestLine_ok (r := previous.reset.request)
    ht.words hholds
  obtain ⟨method, path, version, haccepted⟩ | hoverrun | ⟨request', hrefused⟩ :=
    previous.reset.request.parseRequestLine_cases hholds
  · exact absurd haccepted (hline method path version)
  · rw [HttpRequest.parseRequestLine_overrun hoverrun hholds] at hok
    exact nomatch hok
  · rw [Nat.zero_add] at hrefused
    have htake : t.text.take t.requestLine.length = t.requestLine := List.take_left
    have hs : previous.reset.parsingState = .expectRequestLine := rfl
    refine ⟨request', HttpRequest.parseRequestLine_headers hrefused, hrefused, .refused ?_⟩
    simp only [refuse, crlfIndex_text ht, hs, htake, hrefused]

variable {previous}

/-- What is seen in any chunks is what is seen where the parser ends. -/
theorem caseInsensitive_iff_ends (ht : t.WellFormed) (ht' : t'.WellFormed)
    (hends : Ends 0 previous.reset t.text r v) (hends' : Ends 0 previous.reset t'.text r' v') :
    CaseInsensitive previous t t' ↔
      SameOutcome r r' (t.text.length - v.length) (t'.text.length - v'.length) := by
  have hreading : previous.reset.Reading := reading_reset previous
  have hfeed : ∀ {t : RequestText} {r : HttpParser} {v : List UInt8} {b : MutableSizeTcpBuffer}
      {chunks : List Chunk}, t.WellFormed → Ends 0 previous.reset t.text r v → b.Valid →
      chunks ≠ [] → b.unread ++ stream chunks = t.text →
      ∃ p c rest, feed previous.reset b chunks = .ok (p, c, rest) ∧ p.stamped 0 = r.stamped 0 ∧
        c.unread ++ stream rest = v := by
    intro t r v b chunks ht hends hb hne hstream
    rw [← hstream] at hends
    exact feed_of_ends chunks hb hreading (fun hnil => absurd hnil hne)
      (hstream ▸ expected_text ht) hends
  constructor
  · intro hsame
    have hstream : ∀ t : RequestText,
        MutableSizeTcpBuffer.new.unread ++ stream [⟨t.text, 0, fun _ => 0⟩] = t.text := by
      intro t
      simp [stream]
    obtain ⟨p, c, rest, p', c', rest', hp, hp', hout⟩ := hsame .new .new _ _ valid_new valid_new
      (List.cons_ne_nil _ _) (List.cons_ne_nil _ _) (hstream t) (hstream t')
    obtain ⟨q, d, more, hq, hqr, hleft⟩ := hfeed ht hends valid_new (List.cons_ne_nil _ _)
      (hstream t)
    obtain ⟨q', d', more', hq', hqr', hleft'⟩ := hfeed ht' hends' valid_new (List.cons_ne_nil _ _)
      (hstream t')
    cases hq.symm.trans hp
    cases hq'.symm.trans hp'
    rw [hleft, hleft'] at hout
    exact hout.of_stamped hqr.symm hqr'.symm
  · intro hout b b' chunks chunks' hb hb' hne hne' hstream hstream'
    obtain ⟨p, c, rest, hp, hpr, hleft⟩ := hfeed ht hends hb hne hstream
    obtain ⟨p', c', rest', hp', hpr', hleft'⟩ := hfeed ht' hends' hb' hne' hstream'
    refine ⟨p, c, rest, p', c', rest', hp, hp', ?_⟩
    rw [hleft, hleft']
    exact hout.of_stamped hpr hpr'

/-- What `get_header` shows of the stored lines under a name. -/
def shown (lines : List (List UInt8)) (name : List UInt8) : List UInt8 :=
  (given lines name).getD []

theorem getHeader_withHeaders (p : HttpParser) (lines : List (List UInt8)) (name : List UInt8) :
    (p.withHeaders (Headers.assignAll [] (storedFields lines).1)).request.getHeader name =
      shown lines name := by
  rw [shown, ← find_storedFields]
  rfl

theorem given_of_shown {name value : List UInt8} (hvalue : value ≠ [])
    (h : shown lines name = value) : given lines name = some value := by
  rw [shown] at h
  cases hgiven : given lines name with
  | none =>
    rw [hgiven] at h
    exact absurd h.symm hvalue
  | some found =>
    rw [hgiven] at h
    exact congrArg some h

/-- A query in any spelling shows the same in both requests, if and only if every non-empty value
is given under all spellings. -/
theorem shown_iff {lines' : List (List UInt8)} :
    (∀ key key', lowercase key' = lowercase key → shown lines' key' = shown lines key) ↔
      ∀ name value, value ≠ [] → given lines name = some value ∨ given lines' name = some value →
        ∀ spelling, lowercase spelling = lowercase name →
          given lines spelling = some value ∧ given lines' spelling = some value := by
  constructor
  · intro h name value hvalue hgiven spelling hspelling
    have hall : ∀ key, lowercase key = lowercase name →
        shown lines key = value ∧ shown lines' key = value := by
      intro key hkey
      cases hgiven with
      | inl hgiven =>
        have hname : shown lines name = value := by rw [shown, hgiven, Option.getD_some]
        exact ⟨(h key name hkey.symm).symm.trans ((h name name rfl).trans hname),
          (h name key hkey).trans hname⟩
      | inr hgiven =>
        have hname : shown lines' name = value := by rw [shown, hgiven, Option.getD_some]
        exact ⟨(h key name hkey.symm).symm.trans hname,
          (h name key hkey).trans ((h name name rfl).symm.trans hname)⟩
    obtain ⟨hshown, hshown'⟩ := hall spelling hspelling
    exact ⟨given_of_shown hvalue hshown, given_of_shown hvalue hshown'⟩
  · intro h key key' hkey
    by_cases hempty : shown lines key = []
    · by_cases hempty' : shown lines' key' = []
      · rw [hempty, hempty']
      · have hgiven := given_of_shown hempty' rfl
        have hboth := h key' _ hempty' (.inr hgiven) key hkey.symm
        rw [shown, shown, hgiven, hboth.1]
    · have hgiven := given_of_shown hempty rfl
      have hboth := h key _ hempty (.inl hgiven) key' hkey
      rw [shown, shown, hgiven, hboth.2]

theorem stored_of_ends (hs : p.parsingState = .expectHeaders)
    (hends : Ends timeStamp (p.withHeaders h) (bytes "\r\n" ++ u) r v) :
    ∃ q : HttpParser, r = q.withHeaders h := by
  obtain ⟨q, w, hq, _⟩ := ends_blank_withHeaders timeStamp (h := h) (g := h) hs
    Iff.rfl (fun _ => rfl) u
  exact ⟨q, (hq.unique hends).1⟩

/-- Behind the blank line the length is what the state depends on. -/
theorem isSome_of_state {x : Option (List UInt8)} (hs : p.parsingState = .expectHeaders)
    (hpost : p.request.method = .post) (hends : Ends 0 (p.withHeaders h) (bytes "\r\n" ++ u) r v)
    (hends' : Ends 0 (p.withHeaders g) (bytes "\r\n" ++ u) r' v')
    (hstate : r'.parsingState = r.parsingState)
    (hfind : h.find (bytes "Content-Length") = some [])
    (hfind' : g.find (bytes "Content-Length") = x) : x ≠ none := by
  intro hnone
  subst hnone
  obtain ⟨hfail, hr⟩ := ends_blank_empty 0 (p := p.withHeaders h) hs hpost hfind u
  obtain ⟨hsuccess, hr'⟩ := ends_blank_missing 0 (p := p.withHeaders g) hs hfind' u
  rw [(hfail.unique hends).1, (hsuccess.unique hends').1, hr, hr'] at hstate
  exact nomatch hstate

/-- With the stored headers, the queries agree if and only if the values are given alike. -/
theorem getHeader_iff (lines lines' : List (List UInt8))
    (hr : r.request.headers = Headers.assignAll [] (storedFields lines).1)
    (hr' : r'.request.headers = Headers.assignAll [] (storedFields lines').1) :
    (∀ key key', lowercase key' = lowercase key →
      r'.request.getHeader key' = r.request.getHeader key) ↔
      ∀ name value, value ≠ [] → given lines name = some value ∨ given lines' name = some value →
        ∀ spelling, lowercase spelling = lowercase name →
          given lines spelling = some value ∧ given lines' spelling = some value := by
  rw [← shown_iff]
  simp only [HttpRequest.getHeader, hr, hr', find_storedFields lines, find_storedFields lines',
    shown]

/-- A length that one of two requests in the same state gives, the other gives as well. -/
theorem isSome_of_given {lines' : List (List UInt8)} {x : List UInt8}
    (hs : p.parsingState = .expectHeaders) (hpost : p.request.method = .post)
    (hends : Ends 0 (p.withHeaders (Headers.assignAll [] (storedFields lines).1))
      (bytes "\r\n" ++ u) r v)
    (hends' : Ends 0 (p.withHeaders (Headers.assignAll [] (storedFields lines').1))
      (bytes "\r\n" ++ u) r' v')
    (hstate : r'.parsingState = r.parsingState)
    (hvalue : x ≠ [] → given lines' (bytes "Content-Length") = some x)
    (hx : given lines (bytes "Content-Length") = some x) :
    given lines' (bytes "Content-Length") ≠ none := by
  by_cases hempty : x = []
  · rw [hempty] at hx
    exact isSome_of_state hs hpost hends hends' hstate ((find_storedFields lines _).trans hx)
      (find_storedFields lines' _)
  · rw [hvalue hempty]
    nofun

/-- The condition where all the header lines have been stored. -/
theorem sameOutcome_stored {lines' : List (List UInt8)} (hs : p.parsingState = .expectHeaders)
    (hall : (storedFields lines).2 = [])
    (hends : Ends 0 (p.withHeaders (Headers.assignAll [] (storedFields lines).1))
      (bytes "\r\n" ++ u) r v)
    (hends' : Ends 0 (p.withHeaders (Headers.assignAll [] (storedFields lines').1))
      (bytes "\r\n" ++ u) r' v') (n : Nat) :
    SameOutcome r r' (n - v.length) (n - v'.length) ↔
      EverySpelling p.request.method lines lines' := by
  have hsame : r.request.headers = Headers.assignAll [] (storedFields lines).1 ∧
      r'.request.headers = Headers.assignAll [] (storedFields lines').1 := by
    obtain ⟨q, rfl⟩ := stored_of_ends 0 hs hends
    obtain ⟨q', rfl⟩ := stored_of_ends 0 hs hends'
    exact ⟨rfl, rfl⟩
  have hheaders := getHeader_iff lines lines' hsame.1 hsame.2
  constructor
  · intro hout
    have hvalues := hheaders.mp hout.headers
    refine ⟨hvalues, fun hpost _ => ?_⟩
    rw [Option.isSome_iff_ne_none, Option.isSome_iff_ne_none]
    constructor
    · intro hne
      obtain ⟨x, hx⟩ := Option.ne_none_iff_exists'.mp hne
      exact isSome_of_given hs hpost hends hends' hout.state
        (fun hempty => (hvalues _ x hempty (.inl hx) _ rfl).2) hx
    · intro hne
      obtain ⟨x, hx⟩ := Option.ne_none_iff_exists'.mp hne
      exact isSome_of_given hs hpost hends' hends hout.state.symm
        (fun hempty => (hvalues _ x hempty (.inr hx) _ rfl).1) hx
  · intro hspelling
    have hfind := find_storedFields lines
    have hfind' := find_storedFields lines'
    have hlength : p.request.method = .post →
        given lines' (bytes "Content-Length") = given lines (bytes "Content-Length") := by
      intro hpost
      rw [hpost] at hspelling
      exact hspelling.given_length hall
    obtain ⟨q, w, hq, hq'⟩ := ends_blank_withHeaders 0
      (h := Headers.assignAll [] (storedFields lines).1)
      (g := Headers.assignAll [] (storedFields lines').1) hs
      (by rw [hfind, hfind']; exact hspelling.given_iff _ (by decide))
      (fun hpost => by rw [hfind, hfind', hlength hpost]) u
    obtain ⟨rfl, rfl⟩ := hends.unique hq
    obtain ⟨rfl, rfl⟩ := hends'.unique hq'
    exact ⟨rfl, rfl, rfl, rfl, hheaders.mpr hspelling.values⟩

/-- Where all the header lines are stored, the parser comes to the blank line. -/
theorem exists_ends_stored (hs : p.parsingState = .expectHeaders) (hnone : p.request.headers = [])
    (hlines : ∀ line ∈ lines, IsLine line) (hall : (storedFields lines).2 = [])
    (u : List UInt8) : ∃ (q : HttpParser) (w : List UInt8),
      Ends 0 (p.withHeaders (Headers.assignAll [] (storedFields lines).1)) (bytes "\r\n" ++ u)
        q w ∧
      Ends 0 p (linesText lines ++ (bytes "\r\n" ++ u)) q w := by
  obtain ⟨q, w, hq, _⟩ := ends_blank_withHeaders 0 (p := p)
    (h := Headers.assignAll [] (storedFields lines).1)
    (g := Headers.assignAll [] (storedFields lines).1) hs Iff.rfl (fun _ => rfl) u
  refine ⟨_, w, hq, ends_lines hs hlines ?_⟩
  rw [hall, hnone]
  exact hq

/-- The condition where a header line is refused. -/
theorem sameOutcome_malformed {lines' more more' : List (List UInt8)} {line line' : List UInt8}
    (hs : p.parsingState = .expectHeaders) (hnone : p.request.headers = [])
    (hlines : ∀ line ∈ lines, IsLine line) (hlines' : ∀ line ∈ lines', IsLine line)
    (hrest : (storedFields lines).2 = line :: more)
    (hrest' : (storedFields lines').2 = line' :: more')
    (hsame : List.Forall₂ SameButCase (line :: more) (line' :: more'))
    (hends : Ends 0 p (linesText lines ++ u) r v)
    (hends' : Ends 0 p (linesText lines' ++ u) r' v') (n : Nat) :
    SameOutcome r r' (n - v.length) (n - v'.length) ↔
      EverySpelling p.request.method lines lines' := by
  obtain ⟨rfl, rfl⟩ := hends.unique (ends_malformed hs hlines hrest)
  obtain ⟨rfl, rfl⟩ := hends'.unique (ends_malformed hs hlines' hrest')
  have hlength : (linesText (line' :: more') ++ u).length =
      (linesText (line :: more) ++ u).length := by
    simp only [List.length_append, length_linesText hsame]
  let refused (lines : List (List UInt8)) : HttpParser := { p with
    parsingState := .fail
    request.headers := p.request.headers.assignAll (storedFields lines).1 }
  have hstored : ∀ lines, (refused lines).request.headers =
      Headers.assignAll [] (storedFields lines).1 :=
    fun lines => congrArg (Headers.assignAll · (storedFields lines).1) hnone
  have hheaders := getHeader_iff lines lines' (hstored lines) (hstored lines')
  rw [hlength]
  constructor
  · intro hout
    refine ⟨hheaders.mp hout.headers, fun _ hall => ?_⟩
    rw [hrest] at hall
    exact nomatch hall
  · intro hspelling
    exact ⟨rfl, rfl, rfl, rfl, hheaders.mpr hspelling.values⟩

theorem length_text (h : t.Alike t') : t'.text.length = t.text.length := by
  simp only [RequestText.text, List.length_append, h.requestLine, h.body,
    length_linesText h.headerLines]

/-- The condition for a request line that is accepted. -/
theorem sameOutcome_accepted (halike : t.Alike t') (ht : t.WellFormed) (ht' : t'.WellFormed)
    (hline : IsRequestLine t.requestLine method path version)
    (hends : Ends 0 previous.reset t.text r v) (hends' : Ends 0 previous.reset t'.text r' v') :
    SameOutcome r r' (t.text.length - v.length) (t'.text.length - v'.length) ↔
      EverySpelling method t.headerLines t'.headerLines := by
  have hline' : IsRequestLine t'.requestLine method path version := halike.requestLine ▸ hline
  have hrest := storedFields_rest halike.headerLines
  have hreading : (previous.accepting method path version).Reading := ⟨nofun, nofun⟩
  have heat := eat_text 0 previous ht hline
  have heat' := eat_text 0 previous ht' hline'
  rw [length_text halike]
  rw [halike.body] at heat'
  cases hstored : (storedFields t.headerLines).2 with
  | nil =>
    rw [hstored] at hrest
    cases hstored' : (storedFields t'.headerLines).2 with
    | cons line' more' =>
      rw [hstored'] at hrest
      exact nomatch hrest
    | nil =>
      obtain ⟨q, w, hq, hlines⟩ := exists_ends_stored
        (p := previous.accepting method path version) rfl rfl ht.lines hstored t.body
      obtain ⟨q', w', hq', hlines'⟩ := exists_ends_stored
        (p := previous.accepting method path version) rfl rfl ht'.lines hstored' t.body
      obtain ⟨rfl, rfl⟩ := hends.unique (.step heat hreading hlines)
      obtain ⟨rfl, rfl⟩ := hends'.unique (.step heat' hreading hlines')
      exact sameOutcome_stored (p := previous.accepting method path version) rfl hstored hq hq' _
  | cons line more =>
    rw [hstored] at hrest
    cases hstored' : (storedFields t'.headerLines).2 with
    | nil =>
      rw [hstored'] at hrest
      exact nomatch hrest
    | cons line' more' =>
      rw [hstored'] at hrest
      have hlines := @ends_malformed (previous.accepting method path version) 0 line
        (bytes "\r\n" ++ t.body) _ _ rfl ht.lines hstored
      have hlines' := @ends_malformed (previous.accepting method path version) 0 line'
        (bytes "\r\n" ++ t.body) _ _ rfl ht'.lines hstored'
      obtain ⟨rfl, rfl⟩ := hends.unique (.step heat hreading hlines)
      obtain ⟨rfl, rfl⟩ := hends'.unique (.step heat' hreading hlines')
      exact sameOutcome_malformed (p := previous.accepting method path version) rfl rfl ht.lines
        ht'.lines hstored hstored' hrest hlines hlines' _

theorem wellFormed_of_alike (halike : t.Alike t') (ht : t.WellFormed) :
    t'.WellFormed := by
  refine ⟨?_, ?_, isLine_of_alike halike.headerLines ht.lines⟩
  · rw [halike.requestLine]
    exact ht.words
  · rw [halike.requestLine]
    exact ht.whole

/-- Two requests that differ in the case of letters in their header names have the same outcome if
and only if their request line is not accepted, or every value that counts is given under every
spelling of its name. -/
theorem caseInsensitive_iff (previous : HttpParser) (t t' : RequestText) (ht : t.WellFormed)
    (halike : t.Alike t') :
    CaseInsensitive previous t t' ↔
      ∀ method path version, IsRequestLine t.requestLine method path version →
        EverySpelling method t.headerLines t'.headerLines := by
  have ht' := wellFormed_of_alike halike ht
  have hreading : previous.reset.Reading := reading_reset previous
  by_cases hline : ∃ method path version, IsRequestLine t.requestLine method path version
  · obtain ⟨method, path, version, hline⟩ := hline
    obtain ⟨r, v, hends⟩ := exists_ends 0 hreading (expected_text ht)
    obtain ⟨r', v', hends'⟩ := exists_ends 0 hreading (expected_text ht')
    rw [caseInsensitive_iff_ends ht ht' hends hends',
      sameOutcome_accepted halike ht ht' hline hends hends']
    constructor
    · intro hspelling method' path' version' hother
      rw [← sameOutcome_accepted halike ht ht' hline hends hends',
        sameOutcome_accepted halike ht ht' hother hends hends'] at hspelling
      exact hspelling
    · intro hall
      exact hall method path version hline
  · have hnone : ∀ method path version, ¬IsRequestLine t.requestLine method path version :=
      fun method path version h => hline ⟨method, path, version, h⟩
    obtain ⟨request, hheaders, hparse, hends⟩ := refuse_text 0 previous
      ht hnone
    obtain ⟨request', _, hparse', hends'⟩ := refuse_text 0 previous
      ht' (halike.requestLine ▸ hnone)
    rw [halike.requestLine, hparse] at hparse'
    cases hparse'
    rw [caseInsensitive_iff_ends ht ht' hends hends']
    constructor
    · intro _ method path version h
      exact absurd h (hnone method path version)
    · intro _
      refine ⟨rfl, rfl, by rw [Nat.sub_self, Nat.sub_self], rfl, fun key key' _ => ?_⟩
      simp only [HttpRequest.getHeader, hheaders]
      rfl

/-- A `GET` request with one header line. -/
def getWith (headerLine : List UInt8) : RequestText := ⟨bytes "GET / HTTP/1.1", [headerLine], []⟩

theorem wellFormed_getWith {headerLine : List UInt8} (hline : IsLine headerLine) :
    (getWith headerLine).WellFormed := by
  have hwords : bytes "GET / HTTP/1.1" = [] ++ (bytes "GET" ++ ([32] ++ (bytes "/" ++
      ([32] ++ (bytes "HTTP/1.1" ++ []))))) := by decide
  have hwhole : crlfIndex (bytes "GET / HTTP/1.1") = none := by decide
  refine ⟨⟨[], bytes "GET", [32], bytes "/", [32], bytes "HTTP/1.1", [], hwords,
    by simp [Spaces], ⟨by decide, by decide⟩, ⟨by simp [Spaces], by decide⟩,
    ⟨by decide, by decide⟩, ⟨by simp [Spaces], by decide⟩, ⟨by decide, by decide⟩,
    by simp [Spaces]⟩, hwhole, fun line hmem => ?_⟩
  cases List.mem_singleton.mp hmem
  exact hline

theorem alike_getWith {line line' : List UInt8} (h : SameButCase line line') :
    (getWith line).Alike (getWith line') :=
  ⟨rfl, .cons h .nil, rfl⟩

theorem caseInsensitive_iff_host :
    CaseInsensitive .new (getWith (bytes "Host:")) (getWith (bytes "HOST:")) ↔
      ∀ method path version, IsRequestLine (bytes "GET / HTTP/1.1") method path version →
        EverySpelling method [bytes "Host:"] [bytes "HOST:"] :=
  caseInsensitive_iff .new _ _ (wellFormed_getWith ⟨by decide, by decide⟩)
    (alike_getWith ⟨by decide, by decide⟩)

/-- A request that asks for the connection to be closed, under a name in lower case. -/
theorem not_caseInsensitive_connection :
    (getWith (bytes "Connection: close")).Alike (getWith (bytes "connection: close")) ∧
      ¬CaseInsensitive .new (getWith (bytes "Connection: close"))
        (getWith (bytes "connection: close")) := by
  refine ⟨alike_getWith ⟨by decide, by decide⟩, fun hsame => ?_⟩
  obtain ⟨p, c, rest, p', c', rest', hp, hp', hout⟩ := hsame .new .new
    [⟨(getWith (bytes "Connection: close")).text, 0, fun _ => 0⟩]
    [⟨(getWith (bytes "connection: close")).text, 0, fun _ => 0⟩] valid_new valid_new
    (List.cons_ne_nil _ _) (List.cons_ne_nil _ _) (by simp [stream]) (by simp [stream])
  have hclose := congrArg (Except.map fun x => x.1.request.needClose) hp
  have hclose' := congrArg (Except.map fun x => x.1.request.needClose) hp'
  have htrue : (feed HttpParser.new.reset MutableSizeTcpBuffer.new
      [⟨(getWith (bytes "Connection: close")).text, 0, fun _ => 0⟩]).map
      (fun x => x.1.request.needClose) = .ok true := by decide
  have hfalse : (feed HttpParser.new.reset MutableSizeTcpBuffer.new
      [⟨(getWith (bytes "connection: close")).text, 0, fun _ => 0⟩]).map
      (fun x => x.1.request.needClose) = .ok false := by decide
  rw [htrue] at hclose
  rw [hfalse] at hclose'
  have hflag : true = p.request.needClose := Except.ok.inj hclose
  have hflag' : false = p'.request.needClose := Except.ok.inj hclose'
  have hequal := hout.needClose
  rw [← hflag, ← hflag'] at hequal
  cases hequal

end RequestTexts

end HttpParser

end XubinhServer

import XubinhServer.Http.Chunks
import XubinhServer.Http.ContentLength
import XubinhServer.Http.Response

/-! The parser reads the headers and the body that a response writes. -/
namespace XubinhServer

open Transition MutableSizeTcpBuffer

section Lines

variable {mem : Nat → UInt8} {a : Nat} {s line rest key value : List UInt8} {r : HttpRequest}

theorem MutableSizeTcpBuffer.crlfIndex_of_line (hline : (13 : UInt8) ∉ line) :
    crlfIndex (line ++ (bytes "\r\n" ++ rest)) = some line.length := by
  induction line with
  | nil => rfl
  | cons b line ih =>
    have hb : b ≠ 13 := fun heq => hline (heq ▸ List.mem_cons_self)
    have hline' := ih fun hmem => hline (List.mem_cons_of_mem b hmem)
    rw [List.cons_append]
    cases hnext : line ++ (bytes "\r\n" ++ rest) with
    | nil =>
      rw [hnext] at hline'
      cases hline'
    | cons c more =>
      rw [hnext] at hline'
      rw [crlfIndex, if_neg fun hcrlf => hb hcrlf.1, hline']
      rfl

/-- No white space at either end. -/
def Trimmed (s : List UInt8) : Prop :=
  (∀ b ∈ s.head?, isspace b = false) ∧ ∀ b ∈ s.getLast?, isspace b = false

instance (s : List UInt8) : Decidable (Trimmed s) :=
  @instDecidableAnd _ _ (Option.decidableForallMem _) (Option.decidableForallMem _)

structure IsHeaderKey (key : List UInt8) : Prop where
  nonempty : key ≠ []
  colon : (58 : UInt8) ∉ key
  cr : (13 : UInt8) ∉ key
  lf : (10 : UInt8) ∉ key
  trimmed : Trimmed key

instance (key : List UInt8) : Decidable (IsHeaderKey key) :=
  decidable_of_iff
    (key ≠ [] ∧ (58 : UInt8) ∉ key ∧ (13 : UInt8) ∉ key ∧ (10 : UInt8) ∉ key ∧ Trimmed key)
    ⟨fun ⟨hnonempty, hcolon, hcr, hlf, htrimmed⟩ => ⟨hnonempty, hcolon, hcr, hlf, htrimmed⟩,
      fun h => ⟨h.nonempty, h.colon, h.cr, h.lf, h.trimmed⟩⟩

structure IsHeaderValue (value : List UInt8) : Prop where
  cr : (13 : UInt8) ∉ value
  lf : (10 : UInt8) ∉ value
  trimmed : Trimmed value

instance (value : List UInt8) : Decidable (IsHeaderValue value) :=
  decidable_of_iff ((13 : UInt8) ∉ value ∧ (10 : UInt8) ∉ value ∧ Trimmed value)
    ⟨fun ⟨hcr, hlf, htrimmed⟩ => ⟨hcr, hlf, htrimmed⟩, fun h => ⟨h.cr, h.lf, h.trimmed⟩⟩

theorem skipWhile_trimmed (h : Holds mem a s) (hs : Trimmed s) :
    skipWhile mem isspace s.length a = a := by
  cases s with
  | nil => rfl
  | cons b s =>
    have hb : isspace b = false := hs.1 b rfl
    rw [List.length_cons, skipWhile, (holds_cons.mp h).1, hb]
    rfl

theorem skipBack_trimmed (h : Holds mem a s) (hs : Trimmed s) (hne : s ≠ []) :
    skipBack mem isspace (a + s.length) = a + s.length := by
  obtain ⟨front, b, rfl⟩ := (List.eq_nil_or_concat' s).resolve_left hne
  have hb : isspace b = false := hs.2 b (by simp)
  have hmem : mem (a + front.length) = b := (holds_cons.mp (holds_append.mp h).2).1
  rw [List.length_append, List.length_singleton, ← Nat.add_assoc, skipBack, hmem, hb]
  rfl

/-- A key and a value with a colon in between. -/
theorem HttpRequest.parseHeaderLine_pair (hkey : IsHeaderKey key) (hvalue : IsHeaderValue value)
    (h : Holds mem 0 (key ++ (58 :: value))) :
    r.parseHeaderLine mem 0 (key ++ (58 :: value)).length =
      .ok (true, { r with headers := r.headers.assign key value }) := by
  obtain ⟨hkeyHolds, hbehind⟩ := holds_append.mp h
  obtain ⟨hcolon, hvalueHolds⟩ := holds_cons.mp hbehind
  have hlength : (key ++ (58 :: value)).length = key.length + 1 + value.length := by
    rw [List.length_append, List.length_cons]
    omega
  have hpos : 0 < key.length := List.length_pos_iff.mpr hkey.nonempty
  have hmemchr : memchr mem 58 (key.length + 1 + value.length - 0) 0 = some key.length := by
    have hfound := memchr_holds hkeyHolds hkey.colon hcolon
      (n := key.length + 1 + value.length) (by omega)
    rwa [Nat.zero_add] at hfound
  have hkeyEnd := skipBack_trimmed hkeyHolds hkey.trimmed hkey.nonempty
  have hkeySlice := slice_holds hkeyHolds
  have hvalueStart := skipWhile_trimmed hvalueHolds hvalue.trimmed
  have hvalueSlice := slice_holds hvalueHolds
  rw [Nat.zero_add] at hkeyEnd hkeySlice hvalueStart hvalueSlice
  have hvalueEnd : (if key.length + 1 = key.length + 1 + value.length
      then key.length + 1 + value.length
      else skipBack mem isspace (key.length + 1 + value.length)) =
      key.length + 1 + value.length := by
    split
    · rfl
    · rename_i hne
      rw [Nat.zero_add] at hvalueHolds
      exact skipBack_trimmed hvalueHolds hvalue.trimmed fun hnil => hne (by simp [hnil])
  rw [hlength, HttpRequest.parseHeaderLine, hmemchr]
  simp only [Nat.sub_zero, skipWhile_trimmed hkeyHolds hkey.trimmed,
    if_neg (Nat.ne_of_lt hpos), hkeyEnd, Nat.add_sub_cancel_left, hvalueStart, hvalueEnd,
    hkeySlice, hvalueSlice]
  rfl

end Lines

namespace Headers

variable {h order : Headers} {key value : List UInt8}

theorem assign_of_not_mem (hkey : key ∉ h.map Prod.fst) :
    h.assign key value = h ++ [(key, value)] := by
  induction h with
  | nil => rfl
  | cons e rest ih =>
    rw [List.map_cons, List.mem_cons, not_or] at hkey
    have hne : ¬(e.1 == key) = true := by simpa using Ne.symm hkey.1
    rw [assign, if_neg hne, ih hkey.2]
    rfl

/-- All entries, one after the other. -/
def assignAll (h : Headers) (order : Headers) : Headers :=
  order.foldl (fun h e => h.assign e.1 e.2) h

theorem assignAll_of_distinct (hd : Distinct (h ++ order)) : h.assignAll order = h ++ order := by
  induction order generalizing h with
  | nil => simp [assignAll]
  | cons e rest ih =>
    have hkey : e.1 ∉ h.map Prod.fst := by
      intro hmem
      rw [Distinct, List.map_append] at hd
      exact (List.nodup_append.mp hd).2.2 e.1 hmem e.1 List.mem_cons_self rfl
    have hsplit : h ++ e :: rest = (h ++ [(e.1, e.2)]) ++ rest := by simp
    rw [hsplit] at hd ⊢
    rw [← ih hd, assignAll, List.foldl_cons, assign_of_not_mem hkey]
    rfl

end Headers

namespace HttpResponse

variable {r : HttpResponse} {order : Headers} {b c : MutableSizeTcpBuffer} {version : List UInt8}

def headerLines (order : Headers) : List UInt8 :=
  order.flatMap fun e => e.1 ++ (58 :: e.2) ++ bytes "\r\n"

def statusLine (version : List UInt8) (statusCode : HttpStatusCode) : List UInt8 :=
  version ++ bytes " " ++ bytes statusCode.description

theorem dumpHeaders_spec (order : Headers) (hb : b.Valid) :
    ∃ c, dumpHeaders order b = .ok c ∧ c.Valid ∧ c.unread = b.unread ++ headerLines order := by
  induction order generalizing b with
  | nil => exact ⟨b, rfl, hb, by simp [headerLines]⟩
  | cons e rest ih =>
    obtain ⟨key, value⟩ := e
    obtain ⟨b₁, h₁, hb₁, hu₁⟩ := append_spec hb key
    obtain ⟨b₂, h₂, hb₂, hu₂⟩ := append_spec hb₁ (bytes ":")
    obtain ⟨b₃, h₃, hb₃, hu₃⟩ := append_spec hb₂ value
    obtain ⟨b₄, h₄, hb₄, hu₄⟩ := append_spec hb₃ (bytes "\r\n")
    obtain ⟨c, hc, hvalid, hunread⟩ := ih hb₄
    refine ⟨c, ?_, hvalid, ?_⟩
    · simp only [dumpHeaders, appendCrlf, h₁, h₂, h₃, h₄, bind, Except.bind, hc]
    · have hcolon : bytes ":" = [58] := rfl
      rw [hunread, hu₄, hu₃, hu₂, hu₁, hcolon]
      simp [headerLines]

/-- What is written behind what the buffer holds already. -/
theorem dumpToTcpBuffer_spec (hstatus : r.statusCode ≠ .sNone)
    (hversion : r.getVersionTypeAsString = some version) (order : Headers) (hb : b.Valid) :
    ∃ c, r.dumpToTcpBuffer order b = .ok c ∧ c.Valid ∧
      c.unread = b.unread ++ (statusLine version r.statusCode ++ (bytes "\r\n" ++
        (headerLines order ++ (bytes "\r\n" ++ r.body)))) := by
  obtain ⟨b₁, h₁, hb₁, hu₁⟩ := append_spec hb version
  obtain ⟨b₂, h₂, hb₂, hu₂⟩ := append_spec hb₁ (bytes " ")
  obtain ⟨b₃, h₃, hb₃, hu₃⟩ := append_spec hb₂ (bytes r.statusCode.description)
  obtain ⟨b₄, h₄, hb₄, hu₄⟩ := append_spec hb₃ (bytes "\r\n")
  obtain ⟨b₅, h₅, hb₅, hu₅⟩ := dumpHeaders_spec order hb₄
  obtain ⟨b₆, h₆, hb₆, hu₆⟩ := append_spec hb₅ (bytes "\r\n")
  obtain ⟨b₇, h₇, hb₇, hu₇⟩ := append_spec hb₆ r.body
  have hhead : b₆.unread = b.unread ++ (statusLine version r.statusCode ++ (bytes "\r\n" ++
      (headerLines order ++ bytes "\r\n"))) := by
    rw [hu₆, hu₅, hu₄, hu₃, hu₂, hu₁]
    simp [statusLine]
  rw [dumpToTcpBuffer, if_neg hstatus, hversion]
  simp only [appendCrlf, h₁, h₂, h₃, h₄, h₅, h₆, bind, Except.bind]
  by_cases hbody : r.body = []
  · rw [if_pos hbody]
    refine ⟨b₆, rfl, hb₆, ?_⟩
    rw [hhead, hbody]
    simp
  · rw [if_neg hbody]
    refine ⟨b₇, h₇, hb₇, ?_⟩
    rw [hu₇, hhead]
    simp

/-- A dump that succeeds has a version, and this is all that it has written. -/
theorem written_of_dump {c : MutableSizeTcpBuffer} {order : Headers} {written : List UInt8}
    (hb : b.Valid) (hdump : r.dumpToTcpBuffer order b = .ok c)
    (hwritten : c.unread = b.unread ++ written) :
    ∃ version, r.getVersionTypeAsString = some version ∧
      written = statusLine version r.statusCode ++ (bytes "\r\n" ++
        (headerLines order ++ (bytes "\r\n" ++ r.body))) := by
  have hstatus : r.statusCode ≠ .sNone := by
    intro hnone
    rw [dumpToTcpBuffer, if_pos hnone] at hdump
    cases hdump
  cases hversion : r.getVersionTypeAsString with
  | none =>
    rw [dumpToTcpBuffer, if_neg hstatus, hversion] at hdump
    cases hdump
  | some version =>
    obtain ⟨c', hc', _, hunread⟩ := dumpToTcpBuffer_spec hstatus hversion order hb
    cases hc'.symm.trans hdump
    exact ⟨version, rfl, List.append_cancel_left (hwritten.symm.trans hunread)⟩

theorem cr_not_mem_statusLine (hversion : r.getVersionTypeAsString = some version)
    (statusCode : HttpStatusCode) : (13 : UInt8) ∉ statusLine version statusCode := by
  have hdescription : (13 : UInt8) ∉ bytes statusCode.description := by
    cases statusCode <;> rw [HttpStatusCode.description, bytes_ofList] <;> decide
  have hspace : (13 : UInt8) ∉ version ++ bytes " " := by
    rw [getVersionTypeAsString] at hversion
    cases hr : r.version with
    | http10 =>
      rw [hr] at hversion
      cases hversion
      decide
    | http11 =>
      rw [hr] at hversion
      cases hversion
      decide
    | unsupportedHttpVersion =>
      rw [hr] at hversion
      cases hversion
  intro hmem
  cases List.mem_append.mp hmem with
  | inl hmem => exact hspace hmem
  | inr hmem => exact hdescription hmem

/-- Another first line in the place of the status line. -/
def replaceStatusLine (line written : List UInt8) : List UInt8 :=
  match crlfIndex written with
  | none => written
  | some n => line ++ written.drop n

theorem replaceStatusLine_eq {line status rest : List UInt8} (hstatus : (13 : UInt8) ∉ status) :
    replaceStatusLine line (status ++ (bytes "\r\n" ++ rest)) = line ++ (bytes "\r\n" ++ rest) := by
  rw [replaceStatusLine, crlfIndex_of_line hstatus]
  simp only [List.drop_left]

end HttpResponse

namespace HttpParser

variable {p q : HttpParser} {key value rest u v : List UInt8} {order : Headers} {timeStamp : Int}

/-- The parser behind the request line `POST / HTTP/1.1`. -/
def posted : HttpParser :=
  { HttpParser.new with
    parsingState := .expectHeaders
    request := { HttpRequest.new with method := .post, path := bytes "/", version := .http11 } }

theorem eat_post : eat timeStamp .new (bytes "POST / HTTP/1.1" ++ (bytes "\r\n" ++ rest)) =
    some (posted, rest) := by
  have hline : (13 : UInt8) ∉ bytes "POST / HTTP/1.1" := by decide
  have hlength : (bytes "POST / HTTP/1.1").length = 15 := rfl
  have hparse : HttpRequest.new.parseRequestLine (lineMemory (bytes "POST / HTTP/1.1")) 0 15 =
      .ok (true, posted.request) := by decide
  rw [eat]
  simp only [HttpParser.new, crlfIndex_of_line hline, hlength]
  rw [List.take_left' hlength, hparse]
  rfl

theorem wellFormed_post : WellFormedRequestLine (bytes "POST / HTTP/1.1") :=
  ⟨[], bytes "POST", [32], bytes "/", [32], bytes "HTTP/1.1", [], by decide, by simp [Spaces],
    ⟨by decide, by decide⟩, ⟨by simp [Spaces], by decide⟩, ⟨by decide, by decide⟩,
    ⟨by simp [Spaces], by decide⟩, ⟨by decide, by decide⟩, by simp [Spaces]⟩

theorem expected_post {p : HttpParser} :
    Expected p (bytes "POST / HTTP/1.1" ++ (bytes "\r\n" ++ rest)) := by
  intro _ n hn
  rw [crlfIndex_of_line (by decide)] at hn
  cases hn
  rw [List.take_left' rfl]
  exact wellFormed_post

/-- A header line is eaten as the pair that it has been written for. -/
theorem eat_header (hs : p.parsingState = .expectHeaders) (hkey : IsHeaderKey key)
    (hvalue : IsHeaderValue value) :
    eat timeStamp p (key ++ (58 :: value) ++ bytes "\r\n" ++ rest) =
      some ({ p with request.headers := p.request.headers.assign key value }, rest) := by
  have hline : (13 : UInt8) ∉ key ++ (58 :: value) := by
    simp [hkey.cr, hvalue.cr]
  have hne : (key ++ (58 :: value)).length ≠ 0 := by simp
  have hparse := HttpRequest.parseHeaderLine_pair (r := p.request) hkey hvalue
    (holds_lineMemory (key ++ (58 :: value)))
  rw [List.append_assoc (key ++ (58 :: value)), eat]
  simp only [hs, crlfIndex_of_line hline, if_neg hne, List.take_left, hparse]
  rw [← List.append_assoc, List.drop_left' (by rw [List.length_append]; rfl)]

/-- All the header lines, whatever comes behind them. -/
theorem ends_headerLines (hs : p.parsingState = .expectHeaders)
    (horder : ∀ e ∈ order, IsHeaderKey e.1 ∧ IsHeaderValue e.2)
    (h : Ends timeStamp { p with request.headers := p.request.headers.assignAll order } rest q v) :
    Ends timeStamp p (HttpResponse.headerLines order ++ rest) q v := by
  induction order generalizing p with
  | nil => exact h
  | cons e more ih =>
    obtain ⟨hkey, hvalue⟩ := horder e List.mem_cons_self
    have hlines : HttpResponse.headerLines (e :: more) ++ rest =
        e.1 ++ (58 :: e.2) ++ bytes "\r\n" ++ (HttpResponse.headerLines more ++ rest) := by
      simp [HttpResponse.headerLines]
    rw [hlines]
    refine .step (eat_header hs hkey hvalue) ⟨by simp [hs], by simp [hs]⟩ ?_
    exact ih hs (fun e he => horder e (List.mem_cons_of_mem _ he)) h

theorem eat_blank (timeStamp : Int) (hs : p.parsingState = .expectHeaders) :
    eat timeStamp p (bytes "\r\n" ++ u) = some (p.headersFinished timeStamp, u) := by
  have hcrlf : crlfIndex (bytes "\r\n" ++ u) = some 0 := @crlfIndex_of_line [] u List.not_mem_nil
  rw [eat]
  simp only [hs, hcrlf, if_true]
  rfl

/-- The blank line and the bytes behind it, where the headers announce a number. -/
theorem ends_number (timeStamp : Int) (hs : p.parsingState = .expectHeaders)
    (hpost : p.request.method = .post) (hempty : p.request.body = []) {z : Int}
    (hfind : p.request.headers.find (bytes "Content-Length") = some key)
    (hvalue : strtol (cStr key) = (z, true)) (u : List UInt8) :
    if (z % 2 ^ 64).toNat ≤ u.length then
      ∃ q, Ends timeStamp p (bytes "\r\n" ++ u) q (u.drop (z % 2 ^ 64).toNat) ∧
        q.parsingState = .success ∧ q.request.headers = p.request.headers ∧
        q.request.body = u.take (z % 2 ^ 64).toNat
    else
      ∃ q, Ends timeStamp p (bytes "\r\n" ++ u) q u ∧ q.parsingState = .expectBody := by
  have heat := @eat_blank p u timeStamp hs
  rw [headersFinished_of_number timeStamp hpost hfind hvalue] at heat
  generalize hlength : (z % 2 ^ 64).toNat = n at heat
  have hpending : n ≠ 0 →
      (({ p.announced n with parsingState := .expectBody } : HttpParser).Reading ∧
        eat timeStamp p (bytes "\r\n" ++ u) =
          some ({ p.announced n with parsingState := .expectBody }, u)) := fun hpos =>
    ⟨⟨nofun, nofun⟩, heat.trans (by simp only [if_neg hpos])⟩
  split
  · rename_i hle
    by_cases hzero : n = 0
    · subst hzero
      rw [if_pos rfl] at heat
      exact ⟨_, .done heat fun hreading => hreading.1 rfl, rfl, rfl, hempty⟩
    · obtain ⟨hreading, heat⟩ := hpending hzero
      have hbody : eat timeStamp { p.announced n with parsingState := .expectBody } u =
          some (({ p.announced n with
            parsingState := .expectBody, request.body := u.take n }).succeed timeStamp,
            u.drop n) := by
        rw [eat]
        exact if_neg (Nat.not_lt.2 hle)
      exact ⟨_, .step heat hreading (.done hbody fun hreading => hreading.1 rfl), rfl, rfl, rfl⟩
  · rename_i hlt
    obtain ⟨hreading, heat⟩ := hpending (by omega)
    exact ⟨_, .step heat hreading (.waits (Nat.not_le.1 hlt)), rfl⟩

/-- The blank line and the body, whose length is one of the headers. -/
theorem ends_body (timeStamp : Int) (hs : p.parsingState = .expectHeaders)
    (hpost : p.request.method = .post) {body : List UInt8} (hbody : body.length < 2 ^ 63)
    (hempty : p.request.body = [])
    (hfind : p.request.headers.find (bytes "Content-Length") = some (Decimal.print body.length)) :
    ∃ q, Ends timeStamp p (bytes "\r\n" ++ body) q [] ∧ q.parsingState = .success ∧
      q.request.headers = p.request.headers ∧ q.request.body = body := by
  have hends := ends_number timeStamp hs hpost hempty hfind (strtol_print hbody) body
  have hlength : ((body.length : Int) % 2 ^ 64).toNat = body.length := by omega
  rwa [hlength, if_pos (Nat.le_refl _), List.drop_length, List.take_length] at hends

theorem fields_of_stamped (h : p.stamped 0 = q.stamped 0) :
    p.parsingState = q.parsingState ∧ p.request.headers = q.request.headers ∧
      p.request.body = q.request.body := by
  simp only [stamped, HttpParser.mk.injEq, HttpRequest.mk.injEq] at h
  exact ⟨h.1, h.2.2.2.2.2.2.1, h.2.2.2.2.2.2.2.2⟩

end HttpParser

namespace HttpResponse

open HttpParser

/-- What a response with a body of its own writes, in chunks of any size and with another first
line, is read as the same headers and the same body, up to the last byte. -/
theorem written_response_parsed (r : HttpResponse) (body : List UInt8)
    (hbody : body.length < 2 ^ 63)
    (hheaders : ∀ e ∈ (r.setBody body).headers, IsHeaderKey e.1 ∧ IsHeaderValue e.2)
    (order : Headers) (horder : order.Perm (r.setBody body).headers)
    (b c : MutableSizeTcpBuffer) (hb : b.Valid) (written : List UInt8)
    (hdump : (r.setBody body).dumpToTcpBuffer order b = .ok c)
    (hwritten : c.unread = b.unread ++ written) (chunks : List Chunk)
    (hchunks : stream chunks = replaceStatusLine (bytes "POST / HTTP/1.1") written) :
    ∃ p d rest, feed .new .new chunks = .ok (p, d, rest) ∧ p.parsingState = .success ∧
      p.request.headers.Perm (r.setBody body).headers ∧ p.request.body = body ∧
      d.unread = [] ∧ stream rest = [] := by
  obtain ⟨version, hversion, hsame⟩ := written_of_dump hb hdump hwritten
  rw [hsame, replaceStatusLine_eq (cr_not_mem_statusLine hversion _)] at hchunks
  have hdistinct : Headers.Distinct order :=
    (horder.map Prod.fst).nodup_iff.mpr (r.setBody body).distinct
  have hall : posted.request.headers.assignAll order = order :=
    Headers.assignAll_of_distinct (h := []) hdistinct
  have hfind : Headers.find (posted.request.headers.assignAll order) (bytes "Content-Length") =
      some (Decimal.print body.length) := by
    rw [hall]
    exact Headers.find_of_mem hdistinct (horder.mem_iff.mpr Headers.mem_assign_self)
  obtain ⟨q, hends, hq, hheadersRead, hbodyRead⟩ := ends_body 0
    (p := { posted with
      request.headers := posted.request.headers.assignAll order }) rfl rfl hbody rfl hfind
  have hlines : Ends 0 posted (headerLines order ++ (bytes "\r\n" ++ body)) q [] :=
    ends_headerLines rfl (fun e he => hheaders e (horder.mem_iff.mp he)) hends
  have hstream : Ends 0 .new (stream chunks) q [] := by
    rw [hchunks]
    exact .step eat_post ⟨nofun, nofun⟩ hlines
  have hexpected : Expected .new (stream chunks) := hchunks ▸ expected_post
  obtain ⟨p, d, rest, hfeed, hp, hrest⟩ :=
    feed_of_ends (p := .new) (b := .new) chunks valid_new ⟨nofun, nofun⟩ (fun _ => rfl)
      hexpected hstream
  obtain ⟨hstate, hread, hbodyEq⟩ := fields_of_stamped hp
  obtain ⟨hunreadNil, hrestNil⟩ := List.append_eq_nil_iff.mp hrest
  refine ⟨p, d, rest, hfeed, hstate.trans hq, ?_, hbodyEq.trans hbodyRead, hunreadNil,
    hrestNil⟩
  rw [hread, hheadersRead]
  exact hall.symm ▸ horder

/-- A body that looks like the end of the headers, in three chunks. -/
theorem written_response_parsed_blank :
    ∃ p d rest, feed .new .new
        [⟨bytes "POST / HTTP/1.1\r\nContent-Length:", 1, fun _ => 0⟩,
          ⟨bytes "4\r\nA b:x:y\r\n\r", 2, fun _ => 0⟩, ⟨bytes "\n\r\n\r\n", 3, fun _ => 0⟩] =
        .ok (p, d, rest) ∧ p.parsingState = .success ∧
      p.request.headers.Perm
        [(bytes "A b", bytes "x:y"), (bytes "Content-Length", bytes "4")] ∧
      p.request.body = bytes "\r\n\r\n" ∧ d.unread = [] ∧ stream rest = [] := by
  let r := ((new .http11).setStatusCode .s200Ok).setHeader (bytes "A b") (bytes "x:y")
  obtain ⟨c, hc, _, hunread⟩ := dumpToTcpBuffer_spec (r := r.setBody (bytes "\r\n\r\n"))
    (by decide) rfl [(bytes "Content-Length", bytes "4"), (bytes "A b", bytes "x:y")] valid_new
  refine written_response_parsed r (bytes "\r\n\r\n") (by decide) ?_ _
    (List.Perm.swap _ _ _) .new c valid_new _ hc hunread _ (by decide)
  intro e he
  cases he with
  | head =>
    exact ⟨by decide, by decide⟩
  | tail _ he =>
    cases List.mem_singleton.mp he
    exact ⟨by decide, by decide⟩

end HttpResponse

end XubinhServer

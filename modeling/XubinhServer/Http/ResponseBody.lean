import XubinhServer.Http.RoundTrip

/-! The three overloads of `set_body`. Each writes the body and its length, and the one that takes
an rvalue asks for the length of a string that it has moved from. -/
namespace XubinhServer

open MutableSizeTcpBuffer

/-- `headers.erase(headers.find(key))`. -/
def Headers.eraseKey (h : Headers) (key : List UInt8) : Headers :=
  List.eraseP (fun e => e.1 == key) h

namespace HttpResponse

def eraseHeader (r : HttpResponse) (key : List UInt8) : Bool × HttpResponse :=
  match r.headers.find key with
  | some _ => (true,
      { r with
        headers := r.headers.eraseKey key
        distinct := r.distinct.sublist (List.eraseP_sublist.map Prod.fst) })
  | none => (false, r)

/-- The overload that takes an rvalue; `leftover` is the size of a string that has been moved
from, which the standard leaves open. -/
def setBodyMove (leftover : List UInt8 → Nat) (r : HttpResponse) (body : List UInt8) :
    HttpResponse :=
  { r with body := body }.setHeader (bytes "Content-Length") (Decimal.print (leftover body))

/-- The overload that takes two pointers. -/
def setBodyRange (r : HttpResponse) (range : List UInt8) : HttpResponse :=
  { r with body := range }.setHeader (bytes "Content-Length") (Decimal.print range.length)

inductive Operation where
  | setBody (body : List UInt8)
  | setBodyMove (body : List UInt8)
  | setBodyRange (range : List UInt8)
  | setHeader (key value : List UInt8)
  | eraseHeader (key : List UInt8)

namespace Operation

def apply (leftover : List UInt8 → Nat) (r : HttpResponse) : Operation → HttpResponse
  | .setBody body => r.setBody body
  | .setBodyMove body => r.setBodyMove leftover body
  | .setBodyRange range => r.setBodyRange range
  | .setHeader key value => r.setHeader key value
  | .eraseHeader key => (r.eraseHeader key).2

def setsBody : Operation → Bool
  | .setBody _ => true
  | .setBodyMove _ => true
  | .setBodyRange _ => true
  | _ => false

/-- The header that the caller names. -/
def key? : Operation → Option (List UInt8)
  | .setHeader key _ => some key
  | .eraseHeader key => some key
  | _ => none

end Operation

def run (leftover : List UInt8 → Nat) (r : HttpResponse) (operations : List Operation) :
    HttpResponse :=
  operations.foldl (Operation.apply leftover) r

/-- The last call of `set_body`. -/
def lastSetBody (operations : List Operation) : Option Operation :=
  operations.reverse.find? (·.setsBody)

/-- The dump writes a header whose value is the decimal number of the bytes behind the blank line,
in whatever order the headers are iterated. -/
def AnnouncesBody (r : HttpResponse) : Prop :=
  ∀ (order : Headers) (b : MutableSizeTcpBuffer), order.Perm r.headers → b.Valid →
    ∃ c version body value, r.dumpToTcpBuffer order b = .ok c ∧
      c.unread = b.unread ++ (statusLine version r.statusCode ++ (bytes "\r\n" ++
        (headerLines order ++ (bytes "\r\n" ++ body)))) ∧
      r.getVersionTypeAsString = some version ∧ (bytes "Content-Length", value) ∈ order ∧
      value ≠ [] ∧ (∀ x ∈ value, Decimal.isDigit x = true) ∧ Decimal.value value = body.length

section Histories

variable {leftover : List UInt8 → Nat} {r s : HttpResponse} {operation : Operation}
  {operations : List Operation} {value version : List UInt8} {n : Nat}

/-- What stays as it is while the body is not set anew. -/
structure Declares (r s : HttpResponse) (n : Nat) (body : List UInt8) : Prop where
  length : (bytes "Content-Length", Decimal.print n) ∈ s.headers
  body : s.body = body
  version : s.version = r.version
  statusCode : s.statusCode = r.statusCode

theorem mem_assign_of_ne {h : Headers} {e : List UInt8 × List UInt8} {key : List UInt8}
    (he : e ∈ h) (hne : e.1 ≠ key) : e ∈ h.assign key value := by
  induction h with
  | nil => cases he
  | cons first rest ih =>
    rw [Headers.assign]
    cases he with
    | head =>
      rw [if_neg (by simpa using hne)]
      exact List.mem_cons_self
    | tail _ hmem =>
      split
      · exact List.mem_cons_of_mem _ hmem
      · exact List.mem_cons_of_mem _ (ih hmem)

theorem apply_version (leftover : List UInt8 → Nat) (r : HttpResponse) (operation : Operation) :
    (operation.apply leftover r).version = r.version ∧
    (operation.apply leftover r).statusCode = r.statusCode := by
  cases operation with
  | setBody body => exact ⟨rfl, rfl⟩
  | setBodyMove body => exact ⟨rfl, rfl⟩
  | setBodyRange range => exact ⟨rfl, rfl⟩
  | setHeader key value => exact ⟨rfl, rfl⟩
  | eraseHeader key =>
    rw [Operation.apply, eraseHeader]
    split
    · exact ⟨rfl, rfl⟩
    · exact ⟨rfl, rfl⟩

theorem run_version (leftover : List UInt8 → Nat) (r : HttpResponse)
    (operations : List Operation) : (run leftover r operations).version = r.version ∧
    (run leftover r operations).statusCode = r.statusCode := by
  induction operations generalizing r with
  | nil => exact ⟨rfl, rfl⟩
  | cons operation rest ih =>
    obtain ⟨hversion, hstatus⟩ := apply_version leftover r operation
    exact ⟨(ih _).1.trans hversion, (ih _).2.trans hstatus⟩

/-- Another header does not touch what the length is. -/
theorem Declares.apply {body : List UInt8} (h : Declares r s n body)
    (hbody : operation.setsBody = false)
    (hkey : operation.key? ≠ some (bytes "Content-Length")) :
    Declares r (operation.apply leftover s) n body := by
  obtain ⟨hlength, hbodyEq, hversion, hstatus⟩ := h
  cases operation with
  | setBody body => exact nomatch hbody
  | setBodyMove body => exact nomatch hbody
  | setBodyRange range => exact nomatch hbody
  | setHeader key value =>
    have hne : bytes "Content-Length" ≠ key := fun heq => hkey (congrArg some heq.symm)
    exact ⟨mem_assign_of_ne hlength hne, hbodyEq, hversion, hstatus⟩
  | eraseHeader key =>
    have hne : bytes "Content-Length" ≠ key := fun heq => hkey (congrArg some heq.symm)
    rw [Operation.apply, eraseHeader]
    split
    · exact ⟨(List.mem_eraseP_of_neg (by simpa using hne)).mpr hlength, hbodyEq, hversion, hstatus⟩
    · exact ⟨hlength, hbodyEq, hversion, hstatus⟩

theorem Declares.run {body : List UInt8} (h : Declares r s n body)
    (hbody : ∀ operation ∈ operations, operation.setsBody = false)
    (hkeys : ∀ operation ∈ operations, operation.key? ≠ some (bytes "Content-Length")) :
    Declares r (HttpResponse.run leftover s operations) n body := by
  induction operations generalizing s with
  | nil => exact h
  | cons operation rest ih =>
    exact ih (h.apply (hbody operation List.mem_cons_self) (hkeys operation List.mem_cons_self))
      (fun operation hmem => hbody operation (List.mem_cons_of_mem _ hmem))
      fun operation hmem => hkeys operation (List.mem_cons_of_mem _ hmem)

/-- A response that declares a length announces its body if this is the right one. -/
theorem Declares.announces_iff {body : List UInt8} (h : Declares r s n body)
    (hstatus : r.statusCode ≠ .sNone) (hversion : r.getVersionTypeAsString = some version) :
    s.AnnouncesBody ↔ n = body.length := by
  have hstatus' : s.statusCode ≠ .sNone := h.statusCode.symm ▸ hstatus
  have hversion' : s.getVersionTypeAsString = some version := by
    rw [← hversion, getVersionTypeAsString, getVersionTypeAsString, h.version]
  constructor
  · intro hannounces
    obtain ⟨c, version', body', value, hdump, hwritten, hsame, hmem, _, _, hvalue⟩ :=
      hannounces s.headers .new (List.Perm.refl _) valid_new
    obtain ⟨d, hd, _, hspec⟩ := dumpToTcpBuffer_spec hstatus' hsame s.headers valid_new
    cases hd.symm.trans hdump
    have hbody : body' = s.body := by
      have heq := hwritten.symm.trans hspec
      simpa only [List.append_cancel_left_eq] using heq
    have hprint : value = Decimal.print n := by
      have hfind := Headers.find_of_mem s.distinct hmem
      rw [Headers.find_of_mem s.distinct h.length] at hfind
      exact (Option.some.inj hfind).symm
    rw [hprint, Decimal.value_print, hbody, h.body] at hvalue
    exact hvalue
  · intro hn order b horder hb
    obtain ⟨c, hc, _, hunread⟩ := dumpToTcpBuffer_spec hstatus' hversion' order hb
    refine ⟨c, version, s.body, Decimal.print n, hc, hunread, hversion',
      horder.mem_iff.mpr h.length, Decimal.print_ne_nil n,
      fun x hx => Decimal.isDigit_of_mem_print hx, ?_⟩
    rw [Decimal.value_print, hn, h.body]

/-- What a call of `set_body` declares. -/
def declared (leftover : List UInt8 → Nat) : Operation → Nat × List UInt8
  | .setBody body => (body.length, body)
  | .setBodyMove body => (leftover body, body)
  | .setBodyRange range => (range.length, range)
  | _ => (0, [])

theorem declares_apply (h : operation.setsBody = true) :
    Declares s (operation.apply leftover s) (declared leftover operation).1
      (declared leftover operation).2 := by
  cases operation with
  | setBody body => exact ⟨Headers.mem_assign_self, rfl, rfl, rfl⟩
  | setBodyMove body => exact ⟨Headers.mem_assign_self, rfl, rfl, rfl⟩
  | setBodyRange range => exact ⟨Headers.mem_assign_self, rfl, rfl, rfl⟩
  | setHeader key value => exact nomatch h
  | eraseHeader key => exact nomatch h

/-- The length that a call declares is wrong only where a string has been moved from. -/
theorem declared_iff (h : operation.setsBody = true) :
    (declared leftover operation).1 = (declared leftover operation).2.length ↔
      ∀ body, operation = .setBodyMove body → leftover body = body.length := by
  cases operation with
  | setBody body => exact ⟨fun _ => nofun, fun _ => rfl⟩
  | setBodyMove body =>
    constructor
    · intro heq other hother
      cases hother
      exact heq
    · intro hall
      exact hall body rfl
  | setBodyRange range => exact ⟨fun _ => nofun, fun _ => rfl⟩
  | setHeader key value => exact nomatch h
  | eraseHeader key => exact nomatch h

end Histories

/-- After any calls that set the body at least once and leave the length alone otherwise, the dump
announces the body if and only if the last `set_body` has not moved its argument, or a string that
has been moved from keeps its size. -/
theorem announcesBody_iff (leftover : List UInt8 → Nat) (r : HttpResponse)
    (operations : List Operation) (hstatus : r.statusCode ≠ .sNone)
    (hversion : r.version ≠ .unsupportedHttpVersion)
    (hbody : ∃ operation ∈ operations, operation.setsBody = true)
    (hkeys : ∀ operation ∈ operations, operation.key? ≠ some (bytes "Content-Length")) :
    (run leftover r operations).AnnouncesBody ↔
      ∀ body, lastSetBody operations = some (.setBodyMove body) → leftover body = body.length := by
  obtain ⟨version, hsome⟩ : ∃ version, r.getVersionTypeAsString = some version := by
    cases hv : r.version with
    | http10 => exact ⟨_, by rw [getVersionTypeAsString, hv]⟩
    | http11 => exact ⟨_, by rw [getVersionTypeAsString, hv]⟩
    | unsupportedHttpVersion => exact absurd hv hversion
  cases hlast : lastSetBody operations with
  | none =>
    obtain ⟨operation, hmem, hsets⟩ := hbody
    have hnone := List.find?_eq_none.mp hlast operation (List.mem_reverse.mpr hmem)
    exact absurd hsets hnone
  | some operation =>
    obtain ⟨hsets, after, before, hsplit, hafter⟩ := List.find?_eq_some_iff_append.mp hlast
    have hoperations : operations = before.reverse ++ (operation :: after.reverse) := by
      rw [← List.reverse_reverse operations, hsplit]
      simp
    have hrun : run leftover r operations =
        run leftover (operation.apply leftover (run leftover r before.reverse)) after.reverse := by
      rw [hoperations, run, List.foldl_append]
      rfl
    have hdeclares : Declares (run leftover r before.reverse) (run leftover r operations)
        (declared leftover operation).1 (declared leftover operation).2 := by
      rw [hrun]
      refine (declares_apply hsets).run (fun x hx => ?_) fun x hx => ?_
      · simpa using hafter x (List.mem_reverse.mp hx)
      · refine hkeys x ?_
        rw [hoperations]
        exact List.mem_append_right _ (List.mem_cons_of_mem _ hx)
    obtain ⟨hkept, hkept'⟩ := run_version leftover r before.reverse
    have hsome' : (run leftover r before.reverse).getVersionTypeAsString = some version := by
      rw [← hsome, getVersionTypeAsString, getVersionTypeAsString, hkept]
    rw [hdeclares.announces_iff (hkept'.symm ▸ hstatus) hsome', declared_iff hsets]
    constructor
    · intro hall body hbody
      exact hall body (Option.some.inj hbody)
    · intro hall body hbody
      exact hall body (congrArg some hbody)

/-- A page and a header. -/
theorem announcesBody_iff_page :
    (run (fun _ => 0) ((new .http11).setStatusCode .s200Ok)
      [.setBody (bytes "page"), .setHeader (bytes "Connection") (bytes "close")]).AnnouncesBody ↔
      ∀ body, lastSetBody [.setBody (bytes "page"),
        .setHeader (bytes "Connection") (bytes "close")] = some (.setBodyMove body) →
        (fun _ : List UInt8 => 0) body = body.length :=
  announcesBody_iff (fun _ => 0) _ _ (by decide) (by decide) ⟨_, List.mem_cons_self, rfl⟩
    (by
      intro operation hmem
      simp only [List.mem_cons, List.not_mem_nil, or_false] at hmem
      obtain rfl | rfl := hmem
      · nofun
      · decide)

/-- Where a move empties its argument, a body that is moved in is announced as empty. -/
theorem not_announcesBody_moved :
    ¬(run (fun _ => 0) ((new .http11).setStatusCode .s200Ok)
      [.setBodyMove (bytes "page")]).AnnouncesBody := by
  have hdeclares : Declares ((new .http11).setStatusCode .s200Ok)
      (run (fun _ => 0) ((new .http11).setStatusCode .s200Ok) [.setBodyMove (bytes "page")])
      0 (bytes "page") := ⟨Headers.mem_assign_self, rfl, rfl, rfl⟩
  have hversion : ((new .http11).setStatusCode .s200Ok).getVersionTypeAsString =
      some (bytes "HTTP/1.1") := rfl
  rw [hdeclares.announces_iff (by decide) hversion]
  decide

end HttpResponse

end XubinhServer

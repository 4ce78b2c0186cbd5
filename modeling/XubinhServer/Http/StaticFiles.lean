import XubinhServer.Http.Parser
import XubinhServer.Lib.CString

/-! The request callback of the example server, which maps the path of a request to a file.
The two pattern lengths are the sizes of pointers. -/
namespace XubinhServer.StaticFiles

/-- `sizeof` of a `const char *`. -/
def pointerSize : Nat := 8

def slashDotDotSlash : List UInt8 := bytes "/../"

def slashDotDotSlashLen : Nat := pointerSize

def root : List UInt8 := bytes "./example/http/server"

def imagesFolder : List UInt8 := bytes "/static/images/"

def imagesFolderLen : Nat := pointerSize

/-- What the search of `check_if_is_valid_path` looks for: the string, its terminator, and what
lies behind it. -/
def searchedPattern (behind : Nat → UInt8) : List UInt8 :=
  (List.range slashDotDotSlashLen).map fun i => ((slashDotDotSlash ++ [0])[i]?).getD (behind i)

section Paths
-- the memory behind the string literal, and whether `stat` succeeds
variable (behind : Nat → UInt8) (stat : List UInt8 → Bool)

def checkIfIsValidPath (path : List UInt8) : Bool :=
  if path.headD 0 ≠ 47 then false
  else if search (searchedPattern behind) path ≠ path.length then false
  else true

def checkIfPathExists (path : List UInt8) : Bool := stat (cStr path)

/-- The result, and what becomes of the path. -/
def checkIfPathExistsAndExpandIt (path : List UInt8) : Bool × List UInt8 :=
  if path = bytes "/" then (true, root ++ path ++ bytes "index.html")
  else if path = bytes "/index.html" then (true, path)
  else if strncmp path imagesFolder imagesFolderLen ≠ 0 then (false, path)
  else
    let path := root ++ path
    (checkIfPathExists stat path, path)

/-- What `http_request_callback` goes on to. -/
inductive Reply where
  | nothing
  | send404
  | sendFile (path : List UInt8)
  deriving DecidableEq, Repr

def httpRequestCallback (isWriteEndShutdown : Bool) (request : HttpRequest) : Reply :=
  if isWriteEndShutdown then .nothing
  else if request.method ≠ .get then .send404
  else
    let path := request.path
    if !checkIfIsValidPath behind path then .send404
    else
      let (accepted, path) := checkIfPathExistsAndExpandIt stat path
      if !accepted then .send404 else .sendFile path

/-- A path below the root that may be served. -/
def Allowed (q : List UInt8) : Prop := q = bytes "/index.html" ∨ imagesFolder <+: q

/-- The confinement of what is served, for one request path. -/
structure Confined (path : List UInt8) : Prop where
  served : ∀ isWriteEndShutdown request p, request.path = path →
    httpRequestCallback behind stat isWriteEndShutdown request = .sendFile p →
    ∃ q, p = root ++ q ∧ Allowed q ∧ ¬slashDotDotSlash <:+: q
  rejected : slashDotDotSlash <:+: path → checkIfIsValidPath behind path = false
  expanded : ∀ p, checkIfPathExistsAndExpandIt stat path = (true, p) →
    ∃ q, p = root ++ q ∧ Allowed q

/-- A path that the checks as they are written let through only where it may be served: it holds
no `/../` unless it lacks the first slash or holds the eight bytes that are searched for; it is
not `/index.html`; and of the files below `/static/` it names only images. -/
def Harmless (path : List UInt8) : Prop :=
  (slashDotDotSlash <:+: path → path.headD 0 ≠ 47 ∨ searchedPattern behind <:+: path) ∧
  path ≠ bytes "/index.html" ∧
  (bytes "/static/" <+: path → stat (cStr (root ++ path)) = true → imagesFolder <+: path)

variable {behind stat} {path : List UInt8}

theorem searchedPattern_ne_nil : searchedPattern behind ≠ [] := by
  simp [searchedPattern, slashDotDotSlashLen, pointerSize]

theorem checkIfIsValidPath_iff : checkIfIsValidPath behind path = true ↔
    path.headD 0 = 47 ∧ ¬searchedPattern behind <:+: path := by
  rw [← search_eq_length_iff searchedPattern_ne_nil path, checkIfIsValidPath]
  split
  · rename_i hslash
    exact ⟨fun h => (by cases h), fun h => absurd h.1 hslash⟩
  · rename_i hslash
    split
    · rename_i hfound
      exact ⟨fun h => (by cases h), fun h => absurd h.2 hfound⟩
    · rename_i hmissing
      exact ⟨fun _ => ⟨of_not_not hslash, of_not_not hmissing⟩, fun _ => rfl⟩

/-- Only the eight bytes `/static/` are compared. -/
theorem strncmp_imagesFolder :
    strncmp path imagesFolder imagesFolderLen = 0 ↔ bytes "/static/" <+: path := by
  have htake : imagesFolder.take imagesFolderLen = bytes "/static/" := by decide
  rw [← htake]
  exact strncmp_eq_zero_iff (by decide) (by decide)

theorem not_dotdot_indexHtml : ¬slashDotDotSlash <:+: bytes "/index.html" := by
  decide

/-- The three ways of being accepted. -/
theorem expand_cases {p : List UInt8}
    (h : checkIfPathExistsAndExpandIt stat path = (true, p)) :
    path = bytes "/" ∧ p = root ++ bytes "/index.html" ∨
    path = bytes "/index.html" ∧ p = path ∨
    bytes "/static/" <+: path ∧ stat (cStr (root ++ path)) = true ∧ p = root ++ path := by
  unfold checkIfPathExistsAndExpandIt at h
  split at h
  · rename_i hpath
    cases h
    refine .inl ⟨hpath, ?_⟩
    rw [hpath]
    decide
  · split at h
    · rename_i hpath
      cases h
      exact .inr (.inl ⟨hpath, rfl⟩)
    · split at h
      · cases h
      · rename_i hcmp
        obtain ⟨hstat, rfl⟩ := Prod.mk.inj h
        exact .inr (.inr ⟨strncmp_imagesFolder.mp (of_not_not hcmp), hstat, rfl⟩)

theorem sendFile_cases {isWriteEndShutdown : Bool} {request : HttpRequest} {p : List UInt8}
    (h : httpRequestCallback behind stat isWriteEndShutdown request = .sendFile p) :
    checkIfIsValidPath behind request.path = true ∧
      checkIfPathExistsAndExpandIt stat request.path = (true, p) := by
  unfold httpRequestCallback at h
  split at h
  · cases h
  · split at h
    · cases h
    · simp only at h
      split at h
      · cases h
      · rename_i hvalid
        split at h
        · cases h
        · rename_i haccepted
          cases h
          exact ⟨by simpa using hvalid, Prod.ext (by simpa using haccepted) rfl⟩

theorem Confined.harmless (h : Confined behind stat path) : Harmless behind stat path := by
  refine ⟨fun hdots => ?_, fun hindex => ?_, fun hstatic hstat => ?_⟩
  · have hreject := h.rejected hdots
    by_contra hcontra
    rw [not_or, not_not] at hcontra
    rw [checkIfIsValidPath_iff.mpr hcontra] at hreject
    cases hreject
  · have hexpand : checkIfPathExistsAndExpandIt stat path = (true, path) := by
      rw [hindex]
      rfl
    obtain ⟨q, hq, _⟩ := h.expanded path hexpand
    have hprefix : root <+: bytes "/index.html" := ⟨q, (hindex.symm.trans hq).symm⟩
    exact absurd hprefix (by decide)
  · have hne : ∀ l : List UInt8, ¬bytes "/static/" <+: l → path ≠ l := by
      intro l hl heq
      exact hl (heq ▸ hstatic)
    have hexpand : checkIfPathExistsAndExpandIt stat path = (true, root ++ path) := by
      rw [checkIfPathExistsAndExpandIt, if_neg (hne _ (by decide)), if_neg (hne _ (by decide)),
        if_neg (not_not.mpr (strncmp_imagesFolder.mpr hstatic))]
      exact Prod.ext hstat rfl
    obtain ⟨q, hq, hallowed⟩ := h.expanded _ hexpand
    obtain rfl : path = q := List.append_cancel_left hq
    cases hallowed with
    | inl hindex => exact absurd hindex (hne _ (by decide))
    | inr himages => exact himages

theorem Harmless.confined (h : Harmless behind stat path) : Confined behind stat path := by
  obtain ⟨hdots, hindex, himages⟩ := h
  have hvalid : checkIfIsValidPath behind path = true → ¬slashDotDotSlash <:+: path := by
    intro hvalid hmem
    obtain ⟨hslash, hmissing⟩ := checkIfIsValidPath_iff.mp hvalid
    cases hdots hmem with
    | inl hne => exact hne hslash
    | inr hfound => exact hmissing hfound
  refine ⟨?_, ?_, ?_⟩
  · intro isWriteEndShutdown request p heq1 hserved
    subst heq1
    obtain ⟨hok, hexpand⟩ := sendFile_cases hserved
    obtain ⟨_, rfl⟩ | ⟨heq, _⟩ | ⟨hstatic, hstat, rfl⟩ := expand_cases hexpand
    · exact ⟨_, rfl, .inl rfl, not_dotdot_indexHtml⟩
    · exact absurd heq hindex
    · exact ⟨_, rfl, .inr (himages hstatic hstat), hvalid hok⟩
  · intro hmem
    by_contra hok
    exact hvalid (by simpa using hok) hmem
  · intro p hexpand
    obtain ⟨_, rfl⟩ | ⟨heq, _⟩ | ⟨hstatic, hstat, rfl⟩ := expand_cases hexpand
    · exact ⟨_, rfl, .inl rfl⟩
    · exact absurd heq hindex
    · exact ⟨_, rfl, .inr (himages hstatic hstat)⟩

/-- For every path, every memory behind the literal and every file system: the path is confined
exactly when it is one of those that the mistaken lengths and the missing prefix do not touch. -/
theorem confined_iff (behind : Nat → UInt8) (stat : List UInt8 → Bool) (path : List UInt8) :
    Confined behind stat path ↔ Harmless behind stat path :=
  ⟨Confined.harmless, Harmless.confined⟩

/-- A path to a file beside the image folder, written with `/../`, is served. -/
theorem not_confined_dotdot :
    ¬Confined (fun _ => 0) (fun _ => true) (bytes "/static/images/../../server.cc") := by
  intro h
  have hserved : httpRequestCallback (fun _ => 0) (fun _ => true) false
      { HttpRequest.new with method := .get, path := bytes "/static/images/../../server.cc" } =
      .sendFile (root ++ bytes "/static/images/../../server.cc") := by decide +kernel
  obtain ⟨q, hq, _, hdots⟩ := h.served _ _ _ rfl hserved
  obtain rfl := List.append_cancel_left hq
  exact hdots (by decide +kernel)

end Paths

end XubinhServer.StaticFiles

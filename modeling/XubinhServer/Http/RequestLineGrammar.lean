import Mathlib.Data.List.Basic
import XubinhServer.Http.RequestLine

/-! Which request lines are accepted. The scans for the ends of the method and of the path may find
a space behind the line; the parser then builds a string from a reversed range, or it rejects the
line for another reason. -/
namespace XubinhServer

inductive MethodWord : List UInt8 → HttpMethodType → Prop
  | get : MethodWord (bytes "GET") .get
  | post : MethodWord (bytes "POST") .post

inductive VersionWord : List UInt8 → HttpVersionType → Prop
  | http10 : VersionWord (bytes "HTTP/1.0") .http10
  | http11 : VersionWord (bytes "HTTP/1.1") .http11

/-- A method, a path and a version with spaces between them, and perhaps around them. -/
def IsRequestLine (line : List UInt8) (method : HttpMethodType) (path : List UInt8)
    (version : HttpVersionType) : Prop :=
  ∃ before word gap gap' word' after : List UInt8,
    line = before ++ (word ++ (gap ++ (path ++ (gap' ++ (word' ++ after))))) ∧
    Spaces before ∧ MethodWord word method ∧ (Spaces gap ∧ gap ≠ []) ∧ Word path ∧
    (Spaces gap' ∧ gap' ≠ []) ∧ VersionWord word' version ∧ Spaces after

/-- The bytes from `stop` on that come before the next space. -/
structure Behind (mem : Nat → UInt8) (stop : Nat) (behind : List UInt8) : Prop where
  holds : Holds mem stop behind
  not_mem : (32 : UInt8) ∉ behind
  space : mem (stop + behind.length) = 32

/-- The word that the parser looks for ends behind the line, near enough to be found: a path behind
a supported method, or a method of which the line has the first letters. -/
inductive Overrun (mem : Nat → UInt8) (start : Nat) (line : List UInt8) : Prop
  | path (before word gap path behind : List UInt8) (method : HttpMethodType)
      (hline : line = before ++ (word ++ (gap ++ path))) (hbefore : Spaces before)
      (hword : MethodWord word method) (hgap : Spaces gap ∧ gap ≠ []) (hpath : Word path)
      (hbehind : Behind mem (start + line.length) behind) (hne : behind ≠ [])
      (hlt : behind.length < before.length + word.length + gap.length) : Overrun mem start line
  | method (before word behind : List UInt8) (method : HttpMethodType)
      (hline : line = before ++ word) (hbefore : Spaces before) (hword : Word word)
      (hmethod : MethodWord (word ++ behind) method)
      (hbehind : Behind mem (start + line.length) behind) (hne : behind ≠ [])
      (hlt : behind.length < before.length) : Overrun mem start line

section Words

variable {mem : Nat → UInt8} {a n : Nat} {s line word before gap path version after : List UInt8}
  {method : HttpMethodType} {versionType : HttpVersionType}

theorem exists_spaces (s : List UInt8) :
    ∃ before rest, s = before ++ rest ∧ Spaces before ∧ ∀ b ∈ rest.head?, b ≠ 32 := by
  induction s with
  | nil => exact ⟨[], [], rfl, nofun, nofun⟩
  | cons b s ih =>
    by_cases hb : b = 32
    · obtain ⟨before, rest, hs, hbefore, hrest⟩ := ih
      exact ⟨b :: before, rest, by rw [hs, List.cons_append], List.forall_mem_cons.2 ⟨hb, hbefore⟩,
        hrest⟩
    · exact ⟨[], b :: s, rfl, nofun, fun c hc => Option.some.inj hc ▸ hb⟩

theorem exists_word (s : List UInt8) (hs : ∀ b ∈ s.head?, b ≠ 32) (hne : s ≠ []) :
    ∃ word rest, s = word ++ rest ∧ Word word ∧ ∀ b ∈ rest.head?, b = 32 := by
  induction s with
  | nil => exact absurd rfl hne
  | cons b s ih =>
    have hb : b ≠ 32 := hs b rfl
    by_cases hword : s ≠ [] ∧ ∀ c ∈ s.head?, c ≠ 32
    · obtain ⟨word, rest, hsplit, hword, hrest⟩ := ih hword.2 hword.1
      refine ⟨b :: word, rest, by rw [hsplit, List.cons_append], ⟨List.cons_ne_nil _ _, ?_⟩, hrest⟩
      rw [List.mem_cons, not_or]
      exact ⟨Ne.symm hb, hword.2⟩
    · refine ⟨[b], s, rfl, ⟨List.cons_ne_nil _ _, ?_⟩, fun c hc => ?_⟩
      · rw [List.mem_singleton]
        exact Ne.symm hb
      · by_contra hspace
        refine hword ⟨fun hnil => ?_, fun d hd => ?_⟩
        · rw [hnil] at hc
          exact nomatch hc
        · rw [Option.mem_def.1 hc, Option.mem_def, Option.some.injEq] at hd
          exact hd ▸ hspace

theorem exists_gap {s : List UInt8} (hs : ∀ b ∈ s.head?, b = 32) (hne : s ≠ []) :
    ∃ gap rest, s = gap ++ rest ∧ (Spaces gap ∧ gap ≠ []) ∧ ∀ b ∈ rest.head?, b ≠ 32 := by
  obtain ⟨gap, rest, hsplit, hgap, hrest⟩ := exists_spaces s
  refine ⟨gap, rest, hsplit, ⟨hgap, fun hempty => ?_⟩, hrest⟩
  rw [hempty, List.nil_append] at hsplit
  rw [← hsplit] at hrest
  have hhead := List.head?_eq_some_head hne
  exact hrest _ hhead (hs _ hhead)

theorem exists_trailing (s : List UInt8) :
    ∃ front after, s = front ++ after ∧ Spaces after ∧ ∀ b ∈ front.getLast?, b ≠ 32 := by
  obtain ⟨before, rest, hs, hbefore, hrest⟩ := exists_spaces s.reverse
  refine ⟨rest.reverse, before.reverse, ?_, fun b hb => hbefore b (List.mem_reverse.1 hb), ?_⟩
  · rw [← List.reverse_append, ← hs, List.reverse_reverse]
  · rw [List.getLast?_reverse]
    exact hrest

theorem MethodWord.isWord (h : MethodWord word method) : Word word := by
  cases h with
  | get => exact ⟨by decide, by decide⟩
  | post => exact ⟨by decide, by decide⟩

theorem VersionWord.isWord (h : VersionWord word versionType) : Word word := by
  cases h with
  | http10 => exact ⟨by decide, by decide⟩
  | http11 => exact ⟨by decide, by decide⟩

theorem skipWhile_spaces (h : Holds mem a s) (hs : Spaces s) :
    skipWhile mem isSpaceByte s.length a = a + s.length :=
  skipWhile_all h (isSpaceByte_spaces hs)

theorem skipBack_spaces (h : Holds mem a after) (hafter : Spaces after) :
    skipBack mem isSpaceByte (a + after.length) = skipBack mem isSpaceByte a :=
  skipBack_all h (isSpaceByte_spaces hafter)

theorem skipBack_word (h : Holds mem a s) (hs : ∀ b ∈ s.getLast?, b ≠ 32) (hne : s ≠ []) :
    skipBack mem isSpaceByte (a + s.length) = a + s.length := by
  obtain ⟨front, b, rfl⟩ := (List.eq_nil_or_concat' s).resolve_left hne
  have hb : b ≠ 32 := hs b (by simp)
  have hmem : mem (a + front.length) = b := (holds_cons.1 (holds_append.1 h).2).1
  rw [List.length_append, List.length_singleton, ← Nat.add_assoc, skipBack, hmem, isSpaceByte,
    if_neg (by simpa using hb)]

/-- What a scan finds that does not find a space in the word. -/
theorem exists_behind {m q : Nat} (h : Holds mem a s) (hs : (32 : UInt8) ∉ s)
    (hfound : memchr mem 32 m a = some q) :
    ∃ behind, Behind mem (a + s.length) behind ∧ q = a + s.length + behind.length ∧
      s.length + behind.length < m := by
  rw [memchr_eq_some] at hfound
  obtain ⟨hle, hlt, hq, hfirst⟩ := hfound
  have hbehind : a + s.length ≤ q := by
    refine Nat.le_of_not_lt fun hin => hs ?_
    have hk := h (q - a) (by omega)
    rw [show a + (q - a) = q by omega, hq] at hk
    exact hk ▸ List.getElem_mem _
  have hlength : ((List.range' (a + s.length) (q - (a + s.length))).map mem).length =
      q - (a + s.length) := by
    rw [List.length_map, List.length_range']
  refine ⟨(List.range' (a + s.length) (q - (a + s.length))).map mem, ⟨?_, ?_, ?_⟩, ?_, ?_⟩
  · intro k hk
    rw [List.getElem_map, List.getElem_range', Nat.one_mul]
  · rw [List.mem_map]
    intro hmem
    obtain ⟨i, hi, h32⟩ := hmem
    rw [List.mem_range'_1] at hi
    exact hfirst i (by omega) (by omega) h32
  · rw [hlength, show a + s.length + (q - (a + s.length)) = q by omega, hq]
  · rw [hlength]
    omega
  · rw [hlength]
    omega

namespace HttpRequest

variable {r : HttpRequest}

theorem setMethodType_word (h : Holds mem a word) (hword : MethodWord word method) :
    r.setMethodType mem a (a + word.length) = .ok (true, { r with method }) := by
  rw [setMethodType, slice_holds h]
  cases hword with
  | get => rfl
  | post => rfl

theorem setMethodType_cases (r : HttpRequest) (h : Holds mem a word) :
    (∃ method, MethodWord word method) ∨
      ∃ r', r.setMethodType mem a (a + word.length) = .ok (false, r') := by
  by_cases hget : word = bytes "GET"
  · exact .inl ⟨.get, hget ▸ .get⟩
  · by_cases hpost : word = bytes "POST"
    · exact .inl ⟨.post, hpost ▸ .post⟩
    · refine .inr ⟨{ r with method := .unsupportedHttpMethod }, ?_⟩
      rw [setMethodType, slice_holds h]
      simp only [bind, Except.bind, if_neg hget, if_neg hpost]
      rfl

theorem setVersionType_word (h : Holds mem a word) (hword : VersionWord word versionType) :
    r.setVersionType mem a (a + word.length) = .ok (true, { r with version := versionType }) := by
  rw [setVersionType, slice_holds h]
  cases hword with
  | http10 => rfl
  | http11 => rfl

theorem setVersionType_cases (r : HttpRequest) (h : Holds mem a word) :
    (∃ version, VersionWord word version) ∨
      ∃ r', r.setVersionType mem a (a + word.length) = .ok (false, r') := by
  by_cases h10 : word = bytes "HTTP/1.0"
  · exact .inl ⟨.http10, h10 ▸ .http10⟩
  · by_cases h11 : word = bytes "HTTP/1.1"
    · exact .inl ⟨.http11, h11 ▸ .http11⟩
    · refine .inr ⟨{ r with version := .unsupportedHttpVersion }, ?_⟩
      rw [setVersionType, slice_holds h]
      simp only [bind, Except.bind, if_neg h10, if_neg h11]
      rfl

theorem setPath_word (h : Holds mem a path) :
    r.setPath mem a (a + path.length) = .ok { r with path } := by
  rw [setPath, slice_holds h]
  rfl

theorem isSpaceByte_of_ne {b : UInt8} (hb : b ≠ 32) : isSpaceByte b = false := by
  simpa [isSpaceByte] using hb

/-- The version is what is left between the spaces. -/
theorem parseVersion_trimmed (h : Holds mem a (gap ++ (version ++ after))) (hgap : Spaces gap)
    (hne : version ≠ []) (hhead : ∀ b ∈ version.head?, b ≠ 32)
    (hlast : ∀ b ∈ version.getLast?, b ≠ 32) (hafter : Spaces after)
    (hn : n = a + gap.length + version.length + after.length) :
    r.parseVersion mem a n =
      r.setVersionType mem (a + gap.length) (a + gap.length + version.length) := by
  rw [holds_append, holds_append] at h
  obtain ⟨hg, hv, ha⟩ := h
  have hpos := List.length_pos_iff.2 hne
  have hfirst : isSpaceByte (mem (a + gap.length)) = false := by
    rw [holds_head hv hne]
    exact isSpaceByte_of_ne (hhead _ (List.head?_eq_some_head hne))
  have hstart : skipWhile mem isSpaceByte (n - a) a = a + gap.length :=
    skipWhile_holds hg (isSpaceByte_spaces hgap) hfirst (by omega)
  have hstop : skipBack mem isSpaceByte n = a + gap.length + version.length := by
    rw [hn, skipBack_spaces ha hafter, skipBack_word hv hlast hne]
  rw [parseVersion, hstart, hstop]
  exact if_neg (by omega)

theorem parseVersion_spaces (h : Holds mem a gap) (hgap : Spaces gap) :
    r.parseVersion mem a (a + gap.length) = .ok (false, r) := by
  rw [parseVersion, Nat.add_sub_cancel_left, skipWhile_spaces h hgap]
  exact if_pos rfl

theorem parseVersion_reversed {stop : Nat} (hlt : stop < a) :
    r.parseVersion mem a stop = .error .lengthError := by
  have hback : skipBack mem isSpaceByte stop ≤ stop := skipBack_le isSpaceByte stop
  have hreversed : skipBack mem isSpaceByte stop < a := by omega
  rw [parseVersion, Nat.sub_eq_zero_of_le (Nat.le_of_lt hlt), skipWhile, if_neg (by omega),
    setVersionType, slice, if_pos hreversed]
  rfl

/-- The word behind the spaces ends at the next space, in the line or behind it. -/
theorem parsePath_word {start stop : Nat} (hg : Holds mem a gap) (hgap : Spaces gap)
    (hp : Holds mem (a + gap.length) path) (hpath : Word path)
    (hspace : mem (a + gap.length + path.length) = 32) (hstart : a + gap.length < stop)
    (hlt : path.length < stop - start) :
    r.parsePath mem a start stop =
      ({ r with path } : HttpRequest).parseVersion mem (a + gap.length + path.length) stop := by
  have hskip : skipWhile mem isSpaceByte (stop - a) a = a + gap.length :=
    skipWhile_holds hg (isSpaceByte_spaces hgap) (isSpaceByte_word hp hpath) (by omega)
  have hfound := memchr_holds hp hpath.2 hspace hlt
  simp only [parsePath, hskip, if_neg (Nat.ne_of_lt hstart), hfound, setPath_word hp]
  rfl

/-- Behind a method that ends behind the line, the path is empty and the version is reversed. -/
theorem parsePath_behind {start stop : Nat} (hspace : mem a = 32) (hlt : stop < a)
    (hstart : start < stop) : r.parsePath mem a start stop = .error .lengthError := by
  have hfound : memchr mem 32 (stop - start) a = some a :=
    memchr_eq_some.2 ⟨Nat.le_refl a, by omega, hspace, fun i _ _ => by omega⟩
  have hempty : r.setPath mem a a = .ok { r with path := [] } := @setPath_word mem a [] r nofun
  simp only [parsePath, Nat.sub_eq_zero_of_le (Nat.le_of_lt hlt), skipWhile,
    if_neg (Nat.ne_of_gt hlt), hfound, hempty]
  exact parseVersion_reversed hlt

theorem parsePath_spaces {start : Nat} (h : Holds mem a gap) (hgap : Spaces gap) :
    r.parsePath mem a start (a + gap.length) = .ok (false, r) := by
  rw [parsePath, Nat.add_sub_cancel_left, skipWhile_spaces h hgap]
  exact if_pos rfl

/-- The first word ends at the next space, in the line or behind it. -/
theorem parseRequestLine_word (hb : Holds mem a before) (hbefore : Spaces before)
    (hw : Holds mem (a + before.length) word) (hword : Word word)
    (hspace : mem (a + before.length + word.length) = 32) (hstart : before.length < n)
    (hlt : word.length < n) :
    r.parseRequestLine mem a (a + n) = (do
      let (ok, r) ← r.setMethodType mem (a + before.length) (a + before.length + word.length)
      if ok then r.parsePath mem (a + before.length + word.length) a (a + n)
      else pure (false, r)) := by
  have hskip : skipWhile mem isSpaceByte (a + n - a) a = a + before.length :=
    skipWhile_holds hb (isSpaceByte_spaces hbefore) (isSpaceByte_word hw hword) (by omega)
  have hfound : memchr mem 32 (a + n - a) (a + before.length) =
      some (a + before.length + word.length) :=
    memchr_holds hw hword.2 hspace (by omega)
  simp only [parseRequestLine, hskip, hfound, if_neg (show ¬a + before.length = a + n by omega)]

theorem parseRequestLine_isRequestLine (hline : IsRequestLine line method path versionType)
    (h : Holds mem a line) :
    r.parseRequestLine mem a (a + line.length) =
      .ok (true, { r with method, path, version := versionType }) := by
  obtain ⟨before, word, gap, gap', word', after, hsplit, hbefore, hword, hgap, hpath, hgap', hword',
    hafter⟩ := hline
  have hlength := congrArg List.length hsplit
  rw [hsplit] at h
  simp only [holds_append, List.length_append] at h hlength
  obtain ⟨hb, hw, hg, hp, hg', hw', ha⟩ := h
  have hpath0 := List.length_pos_iff.2 hpath.1
  have hword0 := List.length_pos_iff.2 hword.isWord.1
  have hgap0 := List.length_pos_iff.2 hgap.2
  have hgap'0 := List.length_pos_iff.2 hgap'.2
  have hhead : ∀ b ∈ word'.head?, b ≠ 32 := fun b hb heq =>
    hword'.isWord.2 (heq ▸ List.mem_of_mem_head? hb)
  have hlast : ∀ b ∈ word'.getLast?, b ≠ 32 := fun b hb heq =>
    hword'.isWord.2 (heq ▸ List.mem_of_mem_getLast? hb)
  calc
    r.parseRequestLine mem a (a + line.length)
        = ({ r with method } : HttpRequest).parsePath mem (a + before.length + word.length) a
            (a + line.length) := by
          rw [parseRequestLine_word hb hbefore hw hword.isWord (mem_gap hg hgap) (by omega)
            (by omega), setMethodType_word hw hword]
          rfl
    _ = ({ r with method, path } : HttpRequest).parseVersion mem
          (a + before.length + word.length + gap.length + path.length) (a + line.length) :=
          parsePath_word hg hgap.1 hp hpath (mem_gap hg' hgap') (by omega) (by omega)
    _ = ({ r with method, path } : HttpRequest).setVersionType mem
          (a + before.length + word.length + gap.length + path.length + gap'.length)
          (a + before.length + word.length + gap.length + path.length + gap'.length +
            word'.length) :=
          parseVersion_trimmed (holds_append.2 ⟨hg', holds_append.2 ⟨hw', ha⟩⟩) hgap'.1
            hword'.isWord.1 hhead hlast hafter (by omega)
    _ = .ok (true, { r with method, path, version := versionType }) :=
          setVersionType_word hw' hword'

/-- A line that is overrun makes the parser throw. -/
theorem parseRequestLine_overrun (ho : Overrun mem a line) (h : Holds mem a line) :
    r.parseRequestLine mem a (a + line.length) = .error .lengthError := by
  cases ho with
  | path before word gap path behind method hline hbefore hword hgap hpath hbehind hne hlt =>
    have hlength := congrArg List.length hline
    rw [hline] at h
    simp only [holds_append, List.length_append] at h hlength
    obtain ⟨hb, hw, hg, hp⟩ := h
    have hword0 := List.length_pos_iff.2 hword.isWord.1
    have hgap0 := List.length_pos_iff.2 hgap.2
    have hpath0 := List.length_pos_iff.2 hpath.1
    have hbehind0 := List.length_pos_iff.2 hne
    have hstop : a + line.length = a + before.length + word.length + gap.length + path.length := by
      omega
    have hpathBehind : Word (path ++ behind) :=
      ⟨List.append_ne_nil_of_left_ne_nil hpath.1 _,
        fun hmem => (List.mem_append.1 hmem).elim hpath.2 hbehind.not_mem⟩
    have hholds := hbehind.holds
    have hspace := hbehind.space
    rw [hstop] at hholds hspace
    calc
      r.parseRequestLine mem a (a + line.length)
          = ({ r with method } : HttpRequest).parsePath mem (a + before.length + word.length) a
              (a + line.length) := by
            rw [parseRequestLine_word hb hbefore hw hword.isWord (mem_gap hg hgap) (by omega)
              (by omega), setMethodType_word hw hword]
            rfl
      _ = ({ r with method, path := path ++ behind } : HttpRequest).parseVersion mem
            (a + before.length + word.length + gap.length + (path ++ behind).length)
            (a + line.length) :=
            parsePath_word hg hgap.1 (holds_append.2 ⟨hp, hholds⟩) hpathBehind
              (by rw [List.length_append, ← Nat.add_assoc]; exact hspace) (by omega)
              (by rw [List.length_append]; omega)
      _ = .error .lengthError :=
            parseVersion_reversed (by rw [List.length_append]; omega)
  | method before word behind method hline hbefore hword hmethod hbehind hne hlt =>
    have hlength := congrArg List.length hline
    rw [hline] at h
    simp only [holds_append, List.length_append] at h hlength
    obtain ⟨hb, hw⟩ := h
    have hword0 := List.length_pos_iff.2 hword.1
    have hbehind0 := List.length_pos_iff.2 hne
    have hstop : a + line.length = a + before.length + word.length := by omega
    have hholds := hbehind.holds
    have hspace := hbehind.space
    rw [hstop] at hholds hspace
    have hwordBehind : Holds mem (a + before.length) (word ++ behind) :=
      holds_append.2 ⟨hw, hholds⟩
    have hspaceBehind : mem (a + before.length + (word ++ behind).length) = 32 := by
      rw [List.length_append, ← Nat.add_assoc]
      exact hspace
    have hpath : ({ r with method } : HttpRequest).parsePath mem
        (a + before.length + (word ++ behind).length) a (a + line.length) =
          .error .lengthError :=
      parsePath_behind hspaceBehind (by rw [List.length_append]; omega) (by omega)
    rw [parseRequestLine_word hb hbefore hwordBehind hmethod.isWord hspaceBehind (by omega)
      (by rw [List.length_append]; omega), setMethodType_word hwordBehind hmethod]
    exact hpath

theorem parseVersion_cases (r : HttpRequest) (h : Holds mem a (gap ++ s)) (hgap : Spaces gap)
    (hs : ∀ b ∈ s.head?, b ≠ 32) :
    (∃ word version after, s = word ++ after ∧ VersionWord word version ∧ Spaces after) ∨
      ∃ r', r.parseVersion mem a (a + (gap ++ s).length) = .ok (false, r') := by
  obtain ⟨front, after, hsplit, hafter, hlast⟩ := exists_trailing s
  by_cases hfront : front = []
  · have hnil : s = [] := by
      rw [hfront, List.nil_append] at hsplit
      cases s with
      | nil => rfl
      | cons b s => exact absurd (hafter b (hsplit ▸ List.mem_cons_self)) (hs b rfl)
    rw [hnil, List.append_nil] at h ⊢
    exact .inr ⟨r, parseVersion_spaces h hgap⟩
  · have hhead : ∀ b ∈ front.head?, b ≠ 32 := by
      rw [hsplit, List.head?_append_of_ne_nil _ hfront] at hs
      exact hs
    rw [hsplit] at h ⊢
    have hword : Holds mem (a + gap.length) front := (holds_append.1 (holds_append.1 h).2).1
    obtain ⟨version, hversion⟩ | ⟨r', hr'⟩ := r.setVersionType_cases hword
    · exact .inl ⟨front, version, after, rfl, hversion, hafter⟩
    · refine .inr ⟨r', ?_⟩
      rw [parseVersion_trimmed h hgap hfront hhead hlast hafter
        (by simp only [List.length_append]; omega)]
      exact hr'

/-- What lies behind the method: a path and a version, a path that is overrun, or nothing that is
accepted. -/
theorem parsePath_cases (r : HttpRequest) {start : Nat} (h : Holds mem a (gap ++ s))
    (hgap : Spaces gap) (hs : ∀ b ∈ s.head?, b ≠ 32) (hstart : start < a) :
    (∃ path gap' word version after, s = path ++ (gap' ++ (word ++ after)) ∧ Word path ∧
        (Spaces gap' ∧ gap' ≠ []) ∧ VersionWord word version ∧ Spaces after) ∨
      (∃ behind, Word s ∧ Behind mem (a + (gap ++ s).length) behind ∧ behind ≠ [] ∧
        behind.length < a + gap.length - start) ∨
      ∃ r', r.parsePath mem a start (a + (gap ++ s).length) = .ok (false, r') := by
  by_cases hnil : s = []
  · rw [hnil, List.append_nil] at h ⊢
    exact .inr (.inr ⟨r, parsePath_spaces h hgap⟩)
  obtain ⟨path, rest, hsplit, hpath, hrest⟩ := exists_word s hs hnil
  obtain ⟨hg, hsHolds⟩ := holds_append.1 h
  have hstop : a + (gap ++ s).length = a + gap.length + s.length := by
    rw [List.length_append, Nat.add_assoc]
  rw [hstop]
  by_cases hend : rest = []
  · -- the path goes to the end of the line, and its end is looked for behind it
    rw [hend, List.append_nil] at hsplit
    rw [← hsplit] at hpath
    have hlength := List.length_pos_iff.2 hnil
    cases hfound : memchr mem 32 (a + gap.length + s.length - start) (a + gap.length) with
    | none =>
      have hskip : skipWhile mem isSpaceByte (a + gap.length + s.length - a) a = a + gap.length :=
        skipWhile_holds hg (isSpaceByte_spaces hgap) (isSpaceByte_word hsHolds hpath) (by omega)
      refine .inr (.inr ⟨r, ?_⟩)
      simp only [parsePath, hskip, hfound,
        if_neg (show ¬a + gap.length = a + gap.length + s.length by omega)]
      rfl
    | some q =>
      obtain ⟨behind, hbehind, -, hlt⟩ := exists_behind hsHolds hpath.2 hfound
      by_cases hne : behind = []
      · have hspace := hbehind.space
        rw [hne, List.length_nil, Nat.add_zero] at hspace
        refine .inr (.inr ⟨{ r with path := s }, ?_⟩)
        rw [parsePath_word hg hgap hsHolds hpath hspace (by omega) (by omega)]
        exact parseVersion_spaces holds_nil spaces_nil
      · exact .inr (.inl ⟨behind, hpath, hbehind, hne, by omega⟩)
  · obtain ⟨gap', rest', hrestSplit, hgap', hrest'⟩ := exists_gap hrest hend
    have hlength := congrArg List.length hsplit
    have hlength' := congrArg List.length hrestSplit
    have hgap'0 := List.length_pos_iff.2 hgap'.2
    rw [List.length_append] at hlength hlength'
    rw [hsplit, hrestSplit] at hsHolds
    obtain ⟨hp, hmore⟩ := holds_append.1 hsHolds
    have hspace := mem_gap (holds_append.1 hmore).1 hgap'
    have hfound := @parsePath_word mem a gap path r start (a + gap.length + s.length) hg hgap hp
      hpath hspace (by omega) (by omega)
    obtain ⟨word, version, after, hword, hversion, hafter⟩ | ⟨r', hr'⟩ :=
      ({ r with path } : HttpRequest).parseVersion_cases hmore hgap'.1 hrest'
    · exact .inl ⟨path, gap', word, version, after, by rw [hsplit, hrestSplit, hword], hpath, hgap',
        hversion, hafter⟩
    · refine .inr (.inr ⟨r', ?_⟩)
      rw [hfound, show a + gap.length + s.length = a + gap.length + path.length +
        (gap' ++ rest').length by rw [List.length_append]; omega]
      exact hr'

/-- The end of the only word of a line is looked for behind the line. -/
theorem parseRequestLine_lone (r : HttpRequest) (hline : line = before ++ word)
    (hbefore : Spaces before) (hb : Holds mem a before) (hword : Word word)
    (hw : Holds mem (a + before.length) word) :
    Overrun mem a line ∨ ∃ r', r.parseRequestLine mem a (a + line.length) = .ok (false, r') := by
  have hlength := congrArg List.length hline
  have hword0 := List.length_pos_iff.2 hword.1
  rw [List.length_append] at hlength
  cases hfound : memchr mem 32 (a + line.length - a) (a + before.length) with
  | none =>
    have hskip : skipWhile mem isSpaceByte (a + line.length - a) a = a + before.length :=
      skipWhile_holds hb (isSpaceByte_spaces hbefore) (isSpaceByte_word hw hword) (by omega)
    refine .inr ⟨r, ?_⟩
    simp only [parseRequestLine, hskip, hfound,
      if_neg (show ¬a + before.length = a + line.length by omega)]
    rfl
  | some q =>
    obtain ⟨behind, hbehind, -, hlt⟩ := exists_behind hw hword.2 hfound
    have hwordBehind : Word (word ++ behind) :=
      ⟨List.append_ne_nil_of_left_ne_nil hword.1 _,
        fun hmem => (List.mem_append.1 hmem).elim hword.2 hbehind.not_mem⟩
    have hholds : Holds mem (a + before.length) (word ++ behind) :=
      holds_append.2 ⟨hw, hbehind.holds⟩
    have hspace : mem (a + before.length + (word ++ behind).length) = 32 := by
      rw [List.length_append, ← Nat.add_assoc]
      exact hbehind.space
    have hparse := @parseRequestLine_word mem a line.length _ before r hb hbefore hholds
      hwordBehind hspace (by omega) (by rw [List.length_append]; omega)
    obtain ⟨method, hmethod⟩ | ⟨r', hr'⟩ := r.setMethodType_cases hholds
    · by_cases hne : behind = []
      · refine .inr ⟨{ r with method }, ?_⟩
        rw [hparse, setMethodType_word hholds hmethod, hne, List.append_nil, hlength,
          ← Nat.add_assoc]
        exact @parsePath_spaces mem _ [] _ a holds_nil spaces_nil
      · refine .inl (.method before word behind method hline hbefore hword hmethod ?_ hne
          (by omega))
        rw [hlength, ← Nat.add_assoc]
        exact hbehind
    · refine .inr ⟨r', ?_⟩
      rw [hparse, hr']
      rfl

/-- Behind a first word that ends inside the line, the path and the version decide. -/
theorem parseRequestLine_several (r : HttpRequest)
    (hline : line = before ++ (word ++ (gap ++ after))) (hbefore : Spaces before)
    (hb : Holds mem a before) (hword : Word word)
    (hw : Holds mem (a + before.length) (word ++ (gap ++ after)))
    (hgap : Spaces gap ∧ gap ≠ []) (hafter : ∀ b ∈ after.head?, b ≠ 32) :
    (∃ method path version, IsRequestLine line method path version) ∨ Overrun mem a line ∨
      ∃ r', r.parseRequestLine mem a (a + line.length) = .ok (false, r') := by
  have hlength := congrArg List.length hline
  have hgap0 := List.length_pos_iff.2 hgap.2
  have hword0 := List.length_pos_iff.2 hword.1
  simp only [List.length_append] at hlength
  obtain ⟨hw, hmore⟩ := holds_append.1 hw
  have hspace := mem_gap (holds_append.1 hmore).1 hgap
  have hparse := @parseRequestLine_word mem a line.length word before r hb hbefore hw hword
    hspace (by omega) (by omega)
  obtain ⟨method, hmethod⟩ | ⟨r', hr'⟩ := r.setMethodType_cases hw
  · rw [setMethodType_word hw hmethod] at hparse
    have hstop : a + before.length + word.length + (gap ++ after).length = a + line.length := by
      rw [List.length_append]
      omega
    have hcases := @parsePath_cases mem _ _ gap { r with method } a hmore hgap.1 hafter
      (by omega)
    rw [hstop] at hcases
    cases hcases with
    | inl hgrammar =>
      obtain ⟨path, gap', word', version, after', hsplit, hpath, hgap', hversion, hafter'⟩ :=
        hgrammar
      exact .inl ⟨method, path, version, before, word, gap, gap', word', after',
        by rw [hline, hsplit], hbefore, hmethod, hgap, hpath, hgap', hversion, hafter'⟩
    | inr hcases =>
      cases hcases with
      | inl hbehind =>
        obtain ⟨behind, hpath, hbehind, hne, hlt⟩ := hbehind
        exact .inr (.inl (.path before word gap after behind method hline hbefore hmethod hgap
          hpath hbehind hne (by omega)))
      | inr hrejected =>
        obtain ⟨r', hr'⟩ := hrejected
        exact .inr (.inr ⟨r', by rw [hparse]; exact hr'⟩)
  · refine .inr (.inr ⟨r', ?_⟩)
    rw [hparse, hr']
    rfl

/-- The cases are the words of the line: none, one, or more. -/
theorem parseRequestLine_cases (r : HttpRequest) (h : Holds mem a line) :
    (∃ method path version, IsRequestLine line method path version) ∨ Overrun mem a line ∨
      ∃ r', r.parseRequestLine mem a (a + line.length) = .ok (false, r') := by
  obtain ⟨before, s, hline, hbefore, hs⟩ := exists_spaces line
  by_cases hnil : s = []
  · rw [hnil, List.append_nil] at hline
    rw [hline] at h ⊢
    refine .inr (.inr ⟨r, ?_⟩)
    rw [parseRequestLine, Nat.add_sub_cancel_left, skipWhile_spaces h hbefore]
    exact if_pos rfl
  obtain ⟨word, rest, hsplit, hword, hrest⟩ := exists_word s hs hnil
  rw [hline] at h
  obtain ⟨hb, hw⟩ := holds_append.1 h
  by_cases hend : rest = []
  · rw [hend, List.append_nil] at hsplit
    rw [hsplit] at hline hw
    exact .inr (parseRequestLine_lone r hline hbefore hb hword hw)
  · obtain ⟨gap, after, hrestSplit, hgap, hafter⟩ := exists_gap hrest hend
    rw [hsplit, hrestSplit] at hline hw
    exact parseRequestLine_several r hline hbefore hb hword hw hgap hafter

/-- The parser returns, it accepts the request lines, and it stores the three fields of such a
line. -/
def MeetsGrammar (r : HttpRequest) (mem : Nat → UInt8) (start : Nat) (line : List UInt8) : Prop :=
  ∃ ok r', r.parseRequestLine mem start (start + line.length) = .ok (ok, r') ∧
    (ok = true ↔ ∃ method path version, IsRequestLine line method path version) ∧
    ∀ method path version, IsRequestLine line method path version →
      r' = { r with method, path, version }

/-- Of a line in any memory: the parser goes by the grammar exactly if the line is not overrun. -/
theorem meetsGrammar_iff (r : HttpRequest) (mem : Nat → UInt8) (start : Nat) (line : List UInt8)
    (h : Holds mem start line) : r.MeetsGrammar mem start line ↔ ¬Overrun mem start line := by
  constructor
  · intro hmeets hoverrun
    obtain ⟨ok, r', hparse, -⟩ := hmeets
    rw [parseRequestLine_overrun hoverrun h] at hparse
    exact nomatch hparse
  · intro hnot
    obtain ⟨method, path, version, hline⟩ | hoverrun | ⟨r', hr'⟩ := r.parseRequestLine_cases h
    · refine ⟨true, _, parseRequestLine_isRequestLine hline h,
        ⟨fun _ => ⟨method, path, version, hline⟩, fun _ => rfl⟩,
        fun method' path' version' h' => ?_⟩
      have hsame := (@parseRequestLine_isRequestLine _ _ _ _ _ _ r hline h).symm.trans
        (parseRequestLine_isRequestLine h' h)
      rw [Except.ok.injEq, Prod.mk.injEq] at hsame
      exact hsame.2
    · exact absurd hoverrun hnot
    · have hrejected : ¬∃ method path version, IsRequestLine line method path version := by
        intro hline
        obtain ⟨method, path, version, hline⟩ := hline
        rw [parseRequestLine_isRequestLine hline h] at hr'
        exact nomatch hr'
      exact ⟨false, r', hr', ⟨nofun, fun hline => absurd hline hrejected⟩,
        fun method path version hline => absurd ⟨method, path, version, hline⟩ hrejected⟩

theorem meetsGrammar_iff_get :
    new.MeetsGrammar (lineMemory (bytes "GET / HTTP/1.1")) 0 (bytes "GET / HTTP/1.1") ↔
      ¬Overrun (lineMemory (bytes "GET / HTTP/1.1")) 0 (bytes "GET / HTTP/1.1") :=
  meetsGrammar_iff new _ 0 _ (holds_lineMemory _)

/-- A line without a version, and a space as the first byte of the next line: the path goes on to
that space, and the version from there back to the end of the line. -/
theorem not_meetsGrammar_spaceBehind :
    ¬new.MeetsGrammar (lineMemory (bytes "GET /\r\n x")) 0 (bytes "GET /") := by
  have hthrows : new.parseRequestLine (lineMemory (bytes "GET /\r\n x")) 0
      (0 + (bytes "GET /").length) = .error .lengthError := by decide
  intro h
  obtain ⟨ok, r', hparse, -⟩ := h
  rw [hthrows] at hparse
  exact nomatch hparse

end HttpRequest

end Words

end XubinhServer

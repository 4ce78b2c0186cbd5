import XubinhServer.Http.HeaderCase

/-! The scans of a header line read nothing but the line, whatever lies around it. -/
namespace XubinhServer

section Read

variable (read : Nat → Option UInt8)

/-- `skipWhile` where not everything can be read; a read that cannot be made has no result. -/
def skipWhileIn (p : UInt8 → Bool) : (n pos : Nat) → Option Nat
  | 0, pos => some pos
  | n + 1, pos => do
    let b ← read pos
    if p b then skipWhileIn p n (pos + 1) else some pos

/-- In front of the first byte of the memory there is nothing to read either. -/
def skipBackIn (p : UInt8 → Bool) : (pos : Nat) → Option Nat
  | 0 => none
  | pos + 1 => do
    let b ← read pos
    if p b then skipBackIn p pos else some (pos + 1)

def memchrIn (c : UInt8) : (n pos : Nat) → Option (Option Nat)
  | 0, _ => some none
  | n + 1, pos => do
    let b ← read pos
    if b = c then some (some pos) else memchrIn c n (pos + 1)

def readAll : (n pos : Nat) → Option (List UInt8)
  | 0, _ => some []
  | n + 1, pos => do
    let b ← read pos
    let rest ← readAll n (pos + 1)
    some (b :: rest)

def sliceIn (start stop : Nat) : Option (Except Halt (List UInt8)) :=
  if stop < start then some (throw .lengthError)
  else (readAll read (stop - start) start).map pure

/-- `parse_header_line`, with each of its reads. -/
def HttpRequest.parseHeaderLineIn (r : HttpRequest) (start stop : Nat) :
    Option (Except Halt (Bool × HttpRequest)) := do
  match ← memchrIn read 58 (stop - start) start with
  | none => some (pure (false, r))
  | some colon =>
    let keyStart ← skipWhileIn read isspace (colon - start) start
    if keyStart = colon then some (pure (false, r))
    else
      let keyEnd ← skipBackIn read isspace colon
      let valueStart ← skipWhileIn read isspace (stop - (colon + 1)) (colon + 1)
      let valueEnd ← (if valueStart = stop then some stop else skipBackIn read isspace stop)
      let key ← sliceIn read keyStart keyEnd
      let value ← sliceIn read valueStart valueEnd
      some do
        let key ← key
        let value ← value
        pure (true, { r with headers := r.headers.assign key value })

end Read

/-- Only the bytes of the range `[start, stop)` can be read. -/
def window (mem : Nat → UInt8) (start stop i : Nat) : Option UInt8 :=
  if start ≤ i ∧ i < stop then some (mem i) else none

section Window

variable {mem : Nat → UInt8} {start stop n pos q i j : Nat} {p : UInt8 → Bool} {c : UInt8}

theorem window_eq (hlow : start ≤ i) (hhigh : i < stop) : window mem start stop i = some (mem i) :=
  if_pos ⟨hlow, hhigh⟩

theorem skipWhile_bounds (mem : Nat → UInt8) (p : UInt8 → Bool) (n pos : Nat) :
    pos ≤ skipWhile mem p n pos ∧ skipWhile mem p n pos ≤ pos + n ∧
      (skipWhile mem p n pos ≠ pos + n → p (mem (skipWhile mem p n pos)) = false) := by
  induction n generalizing pos with
  | zero => exact ⟨Nat.le_refl _, Nat.le_refl _, fun hne => absurd rfl hne⟩
  | succ n ih =>
    rw [skipWhile]
    split
    · obtain ⟨hlow, hhigh, hstop⟩ := ih (pos + 1)
      exact ⟨by omega, by omega, fun hne => hstop (by omega)⟩
    · rename_i hp
      exact ⟨Nat.le_refl _, Nat.le_add_right _ _, fun _ => Bool.eq_false_of_not_eq_true hp⟩

theorem skipWhileIn_eq (hlow : start ≤ pos) (hhigh : pos + n ≤ stop) :
    skipWhileIn (window mem start stop) p n pos = some (skipWhile mem p n pos) := by
  induction n generalizing pos with
  | zero => rfl
  | succ n ih =>
    rw [skipWhileIn, window_eq hlow (by omega), skipWhile, Option.bind_eq_bind, Option.bind_some]
    split
    · exact ih (by omega) (by omega)
    · rfl

/-- A scan backwards stops in the range if something in the range stops it. -/
theorem skipBackIn_eq (hq : p (mem q) = false) (hlow : start ≤ q) (hlt : q < pos)
    (hhigh : pos ≤ stop) :
    skipBackIn (window mem start stop) p pos = some (skipBack mem p pos) := by
  induction pos with
  | zero => exact absurd hlt (Nat.not_lt_zero q)
  | succ pos ih =>
    rw [skipBackIn, window_eq (by omega) (by omega), skipBack, Option.bind_eq_bind,
      Option.bind_some]
    split
    · rename_i hskipped
      have hne : q ≠ pos := by
        intro heq
        rw [heq, hskipped] at hq
        cases hq
      exact ih (by omega) (by omega)
    · rfl

theorem memchrIn_eq (hlow : start ≤ pos) (hhigh : pos + n ≤ stop) :
    memchrIn (window mem start stop) c n pos = some (memchr mem c n pos) := by
  induction n generalizing pos with
  | zero => rfl
  | succ n ih =>
    rw [memchrIn, window_eq hlow (by omega), memchr, Option.bind_eq_bind, Option.bind_some]
    split
    · rfl
    · exact ih (by omega) (by omega)

theorem readAll_eq (hlow : start ≤ pos) (hhigh : pos + n ≤ stop) :
    readAll (window mem start stop) n pos = some ((List.range' pos n).map mem) := by
  induction n generalizing pos with
  | zero => rfl
  | succ n ih =>
    rw [readAll, window_eq hlow (by omega), Option.bind_eq_bind, Option.bind_some,
      ih (by omega) (by omega)]
    rfl

theorem sliceIn_eq (hlow : start ≤ i) (hhigh : j ≤ stop) :
    sliceIn (window mem start stop) i j = some (slice mem i j) := by
  rw [sliceIn, slice]
  split
  · rfl
  · rw [readAll_eq hlow (by omega)]
    rfl

/-- With the range alone the parse goes as with the whole memory: it makes no other reads. -/
theorem HttpRequest.parseHeaderLineIn_eq (r : HttpRequest) (mem : Nat → UInt8)
    (hrange : start ≤ stop) :
    r.parseHeaderLineIn (window mem start stop) start stop =
      some (r.parseHeaderLine mem start stop) := by
  have hmemchr : memchrIn (window mem start stop) 58 (stop - start) start =
      some (memchr mem 58 (stop - start) start) := memchrIn_eq (Nat.le_refl _) (by omega)
  rw [parseHeaderLineIn, parseHeaderLine, hmemchr, Option.bind_eq_bind, Option.bind_some]
  cases hcolon : memchr mem 58 (stop - start) start with
  | none => rfl
  | some colon =>
    obtain ⟨hlow, hhigh, _, _⟩ := memchr_eq_some.mp hcolon
    obtain ⟨hkeyLow, hkeyHigh, hkeyStop⟩ := skipWhile_bounds mem isspace (colon - start) start
    have hkeyStart : skipWhileIn (window mem start stop) isspace (colon - start) start =
      some (skipWhile mem isspace (colon - start) start) :=
      skipWhileIn_eq (Nat.le_refl _) (by omega)
    simp only [hkeyStart, Option.bind_eq_bind, Option.bind_some]
    by_cases hempty : skipWhile mem isspace (colon - start) start = colon
    · rw [if_pos hempty, if_pos hempty]
    · have hkeyEnd : skipBackIn (window mem start stop) isspace colon =
          some (skipBack mem isspace colon) :=
        skipBackIn_eq (hkeyStop (by omega)) hkeyLow (by omega) (by omega)
      have hvalueStart : skipWhileIn (window mem start stop) isspace (stop - (colon + 1))
          (colon + 1) = some (skipWhile mem isspace (stop - (colon + 1)) (colon + 1)) :=
        skipWhileIn_eq (by omega) (by omega)
      obtain ⟨hvalueLow, hvalueHigh, hvalueStop⟩ :=
        skipWhile_bounds mem isspace (stop - (colon + 1)) (colon + 1)
      generalize skipWhile mem isspace (stop - (colon + 1)) (colon + 1) = valueStart at *
      have hvalueEnd : (if valueStart = stop then some stop
          else skipBackIn (window mem start stop) isspace stop) =
          some (if valueStart = stop then stop else skipBack mem isspace stop) := by
        split
        · rfl
        · exact skipBackIn_eq (hvalueStop (by omega)) (by omega) (by omega) (Nat.le_refl _)
      have hvalueEnd_le : (if valueStart = stop then stop else skipBack mem isspace stop) ≤
          stop := by
        split
        · exact Nat.le_refl _
        · exact skipBack_le isspace stop
      have hkeyEnd_le : skipBack mem isspace colon ≤ colon := skipBack_le isspace colon
      simp only [if_neg hempty, hkeyEnd, hvalueStart, hvalueEnd, Option.bind_some,
        sliceIn_eq hkeyLow (Nat.le_trans hkeyEnd_le (Nat.le_of_lt (by omega : colon < stop))),
        sliceIn_eq (by omega : start ≤ valueStart) hvalueEnd_le]

end Window

/-- The bytes of the range. -/
def rangeBytes (mem : Nat → UInt8) (start stop : Nat) : List UInt8 :=
  (List.range' start (stop - start)).map mem

variable {mem : Nat → UInt8} {start stop : Nat} {line : List UInt8} {key value : List UInt8}

theorem holds_rangeBytes (mem : Nat → UInt8) (start stop : Nat) :
    Holds mem start (rangeBytes mem start stop) := by
  intro k hk
  simp [rangeBytes]

theorem trim_eq_nil_iff (s : List UInt8) : trim s = [] ↔ ∀ b ∈ s, isspace b = true := by
  constructor
  · intro hnil b hb
    obtain ⟨before, after, hsplit, hbefore, hafter⟩ := exists_trim s
    rw [hsplit, hnil, List.nil_append, List.mem_append] at hb
    cases hb with
    | inl hb => exact hbefore b hb
    | inr hb => exact hafter b hb
  · intro hall
    rw [trim, List.dropWhile_eq_nil_iff.mpr hall]
    rfl

/-- What the parse of a header line should do: it is true exactly if there is a key in front of the
first colon, and stores nothing but the field. -/
structure ParsesHeaderLine (r : HttpRequest) (line : List UInt8) (ok : Bool) (r' : HttpRequest) :
    Prop where
  accepts : ok = true ↔ ∃ name value, line = name ++ 58 :: value ∧ 58 ∉ name ∧
    ¬∀ b ∈ name, isspace b = true
  stores : ok = true → ∀ name value, line = name ++ 58 :: value → 58 ∉ name →
    r' = { r with headers := r.headers.assign (trim name) (trim value) } ∧
      ∀ key, r'.headers.find key =
        if trim name = key then some (trim value) else r.headers.find key
  refuses : ok = false → r' = r

/-- There is one first colon. -/
theorem name_unique {name name' value value' : List UInt8} (hname : 58 ∉ name)
    (hname' : 58 ∉ name') (h : name ++ 58 :: value = name' ++ 58 :: value') :
    name = name' ∧ value = value' := by
  have htake := congrArg (List.takeWhile (· ≠ 58)) h
  rw [takeWhile_name hname, takeWhile_name hname'] at htake
  rw [htake] at h
  exact ⟨htake, (List.cons.inj (List.append_cancel_left h)).2⟩

theorem parsesHeaderLine_refused (r : HttpRequest) (h : ∀ name value,
      line = name ++ 58 :: value → 58 ∉ name → trim name = []) :
    ParsesHeaderLine r line false r where
  accepts := by
    refine iff_of_false (by decide) fun hname => ?_
    obtain ⟨name, value, hline, hfirst, hblank⟩ := hname
    exact hblank ((trim_eq_nil_iff name).mp (h name value hline hfirst))
  stores := fun hok => absurd hok (by decide)
  refuses := fun _ => rfl

theorem parsesHeaderLine_field (r : HttpRequest) {name value : List UInt8} (hname : 58 ∉ name)
    (hkey : trim name ≠ []) : ParsesHeaderLine r (name ++ 58 :: value) true
      { r with headers := r.headers.assign (trim name) (trim value) } where
  accepts := iff_of_true rfl ⟨name, value, rfl, hname, mt (trim_eq_nil_iff name).mpr hkey⟩
  stores := by
    intro _ name' value' hline hname'
    obtain ⟨rfl, rfl⟩ := name_unique hname hname' hline
    exact ⟨rfl, fun key => Headers.find_assign⟩
  refuses := fun hok => absurd hok (by decide)

/-- The parse of a range of bytes is right, for whatever lies around it, and is made with reads in
the range alone. -/
theorem HttpRequest.parseHeaderLine_parses (r : HttpRequest) (mem : Nat → UInt8)
    (hrange : start ≤ stop) : ∃ ok r', r.parseHeaderLine mem start stop = .ok (ok, r') ∧
      r.parseHeaderLineIn (window mem start stop) start stop = some (.ok (ok, r')) ∧
      ParsesHeaderLine r (rangeBytes mem start stop) ok r' := by
  have hparse := r.parseHeaderLine_field (holds_rangeBytes mem start stop)
  have hlength : start + (rangeBytes mem start stop).length = stop := by
    rw [rangeBytes, List.length_map, List.length_range']
    omega
  have hread := r.parseHeaderLineIn_eq mem hrange
  rw [hlength] at hparse
  rw [hread, hparse]
  cases exists_name (rangeBytes mem start stop) with
  | inl hcolon =>
    rw [headerField_of_noColon hcolon]
    refine ⟨false, r, rfl, rfl, parsesHeaderLine_refused r fun name value hline _ => ?_⟩
    exact absurd (hline ▸ List.mem_append_right _ List.mem_cons_self) hcolon
  | inr hname =>
    obtain ⟨name, value, hline, hname⟩ := hname
    rw [hline, headerField_append hname]
    by_cases hkey : trim name = []
    · rw [if_pos hkey]
      refine ⟨false, r, rfl, rfl, parsesHeaderLine_refused r fun name' value' hline' hname' => ?_⟩
      obtain ⟨rfl, _⟩ := name_unique hname hname' hline'
      exact hkey
    · rw [if_neg hkey]
      exact ⟨true, _, rfl, rfl, parsesHeaderLine_field r hname hkey⟩

/-- A line with white space around its parts, and a second colon. -/
theorem HttpRequest.parseHeaderLine_parses_host : 0 ≤ 15 ∧ ∃ ok r',
    HttpRequest.new.parseHeaderLine (lineMemory (bytes " Host : a:8080 ")) 0 15 = .ok (ok, r') ∧
      ParsesHeaderLine .new (rangeBytes (lineMemory (bytes " Host : a:8080 ")) 0 15) ok r' := by
  obtain ⟨ok, r', hparse, _, hparses⟩ := HttpRequest.parseHeaderLine_parses .new
    (lineMemory (bytes " Host : a:8080 ")) (Nat.zero_le 15)
  exact ⟨by decide, ok, r', hparse, hparses⟩

/-- In `:a:` the second colon has something in front of it, but the first one does not. -/
theorem HttpRequest.not_parseHeaderLine_accepts : ¬∀ (r : HttpRequest) (mem : Nat → UInt8)
    (start stop : Nat), start ≤ stop → ∀ ok r', r.parseHeaderLine mem start stop = .ok (ok, r') →
      (ok = true ↔ ∃ name value, rangeBytes mem start stop = name ++ 58 :: value ∧
        ¬∀ b ∈ name, isspace b = true) := by
  intro haccepts
  have hparse : HttpRequest.new.parseHeaderLine (lineMemory (bytes ":a:")) 0 3 =
      .ok (false, .new) := rfl
  have hiff := haccepts .new (lineMemory (bytes ":a:")) 0 3 (Nat.zero_le 3) false .new hparse
  have hname : ∃ name value, rangeBytes (lineMemory (bytes ":a:")) 0 3 = name ++ 58 :: value ∧
      ¬∀ b ∈ name, isspace b = true := ⟨bytes ":a", [], rfl, by decide⟩
  exact absurd (hiff.mpr hname) (by decide)

end XubinhServer

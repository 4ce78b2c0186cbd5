import XubinhServer.Http.Relocation

/-! Request lines of three words. Their scans end inside the line, so that what lies behind the
line does not matter, whether the words are supported or not. -/
namespace XubinhServer

def Spaces (s : List UInt8) : Prop := ∀ b ∈ s, b = 32

theorem spaces_nil : Spaces [] := by
  intro b hb
  exact absurd hb List.not_mem_nil

/-- A word without spaces. -/
def Word (s : List UInt8) : Prop := s ≠ [] ∧ (32 : UInt8) ∉ s

/-- A method, a target and a version with spaces between them, and perhaps around them. -/
def WellFormedRequestLine (line : List UInt8) : Prop :=
  ∃ before method gap target gap' version after : List UInt8,
    line = before ++ (method ++ (gap ++ (target ++ (gap' ++ (version ++ after))))) ∧
    Spaces before ∧ Word method ∧ (Spaces gap ∧ gap ≠ []) ∧ Word target ∧
    (Spaces gap' ∧ gap' ≠ []) ∧ Word version ∧ Spaces after

/-- The bytes of `s` lie in memory from `a` on. -/
def Holds (mem : Nat → UInt8) (a : Nat) (s : List UInt8) : Prop :=
  ∀ k, (hk : k < s.length) → mem (a + k) = s[k]

section Holds

variable {mem mem' : Nat → UInt8} {a a' n : Nat} {b : UInt8} {s t line : List UInt8}

theorem holds_nil : Holds mem a [] := by
  intro k hk
  exact absurd hk (Nat.not_lt_zero k)

theorem holds_cons : Holds mem a (b :: s) ↔ mem a = b ∧ Holds mem (a + 1) s := by
  constructor
  · intro h
    refine ⟨h 0 (by simp), fun k hk => ?_⟩
    have hk' := h (k + 1) (by rw [List.length_cons]; omega)
    rw [Nat.add_assoc, Nat.add_comm 1 k, hk']
    rfl
  · intro h k hk
    obtain ⟨hb, hs⟩ := h
    cases k with
    | zero => exact hb
    | succ k =>
      have hk' := hs k (by rw [List.length_cons] at hk; omega)
      rw [show a + (k + 1) = a + 1 + k by omega, hk']
      rfl

theorem holds_append :
    Holds mem a (s ++ t) ↔ Holds mem a s ∧ Holds mem (a + s.length) t := by
  induction s generalizing a with
  | nil => simp [Holds]
  | cons b s ih =>
    rw [List.cons_append, holds_cons, holds_cons, ih, List.length_cons, and_assoc,
      show a + 1 + s.length = a + (s.length + 1) by omega]

theorem holds_lineMemory (line : List UInt8) : Holds (lineMemory line) 0 line := by
  intro k hk
  rw [Nat.zero_add, lineMemory, List.getElem?_eq_getElem hk]
  rfl

/-- A scan passes over what it skips. -/
theorem skipWhile_add (h : Holds mem a s) {p : UInt8 → Bool} (hs : ∀ b ∈ s, p b = true)
    (m : Nat) : skipWhile mem p (s.length + m) a = skipWhile mem p m (a + s.length) := by
  induction s generalizing a with
  | nil => rw [List.length_nil, Nat.zero_add, Nat.add_zero]
  | cons b s ih =>
    obtain ⟨hb, hrest⟩ := holds_cons.mp h
    have hmore := ih hrest fun c hc => hs c (List.mem_cons_of_mem b hc)
    have hlength : (b :: s).length + m = s.length + m + 1 := by
      rw [List.length_cons]
      omega
    rw [hlength, skipWhile, hb, hs b List.mem_cons_self, if_pos rfl, hmore, List.length_cons,
      Nat.add_assoc, Nat.add_comm 1]

/-- It may go on to the end, -/
theorem skipWhile_all (h : Holds mem a s) {p : UInt8 → Bool} (hs : ∀ b ∈ s, p b = true) :
    skipWhile mem p s.length a = a + s.length :=
  skipWhile_add h hs 0

/-- or stop at what it does not skip. -/
theorem skipWhile_holds (h : Holds mem a s) {p : UInt8 → Bool} (hs : ∀ b ∈ s, p b = true)
    (hstop : p (mem (a + s.length)) = false) (hn : s.length ≤ n) :
    skipWhile mem p n a = a + s.length := by
  obtain ⟨m, rfl⟩ := Nat.exists_eq_add_of_le hn
  rw [skipWhile_add h hs]
  cases m with
  | zero => rfl
  | succ m => simp [skipWhile, hstop]

theorem skipBack_all (h : Holds mem a s) {p : UInt8 → Bool} (hs : ∀ b ∈ s, p b = true) :
    skipBack mem p (a + s.length) = skipBack mem p a := by
  induction s generalizing a with
  | nil => rfl
  | cons b s ih =>
    obtain ⟨hb, hrest⟩ := holds_cons.mp h
    have hmore := ih hrest fun c hc => hs c (List.mem_cons_of_mem b hc)
    rw [List.length_cons, show a + (s.length + 1) = a + 1 + s.length by omega, hmore, skipBack,
      hb, hs b List.mem_cons_self]
    rfl

theorem memchr_holds (h : Holds mem a s) {c : UInt8} (hs : c ∉ s)
    (hc : mem (a + s.length) = c) (hn : s.length < n) :
    memchr mem c n a = some (a + s.length) := by
  rw [memchr_eq_some]
  refine ⟨by omega, by omega, hc, fun i hi hlt heq => ?_⟩
  have hi' := h (i - a) (by omega)
  rw [show a + (i - a) = i by omega, heq] at hi'
  exact hs (hi' ▸ List.getElem_mem _)

theorem holds_head (h : Holds mem a s) (hs : s ≠ []) : mem a = s.head hs := by
  cases s with
  | nil => exact absurd rfl hs
  | cons b s => exact (holds_cons.mp h).1

/-- The first byte of a word ends the spaces before it. -/
theorem isSpaceByte_word (h : Holds mem a s) (hs : Word s) : isSpaceByte (mem a) = false := by
  rw [holds_head h hs.1]
  have hne : s.head hs.1 ≠ 32 := by
    intro heq
    exact hs.2 (heq ▸ List.head_mem hs.1)
  simpa [isSpaceByte] using hne

theorem isSpaceByte_spaces (hs : Spaces s) : ∀ b ∈ s, isSpaceByte b = true := by
  intro b hb
  rw [hs b hb]
  rfl

theorem mem_gap (h : Holds mem a s) (hs : Spaces s ∧ s ≠ []) : mem a = 32 := by
  rw [holds_head h hs.2]
  exact hs.1 _ (List.head_mem hs.2)

theorem slice_holds (h : Holds mem a s) : slice mem a (a + s.length) = .ok s := by
  rw [slice, if_neg (by omega)]
  have hbytes : (List.range' a (a + s.length - a)).map mem = s := by
    refine List.ext_getElem (by simp) fun k hk hk' => ?_
    rw [List.getElem_map, List.getElem_range', Nat.one_mul]
    exact h k hk'
  rw [hbytes]
  rfl

namespace HttpRequest

variable {r : HttpRequest}

/-- The three words of a request line are where the scans find them. -/
theorem parseRequestLine_words {before method gap target gap' version after : List UInt8}
    (hbefore : Spaces before) (hmethod : Word method) (hgap : Spaces gap ∧ gap ≠ [])
    (htarget : Word target) (hgap' : Spaces gap' ∧ gap' ≠ [])
    (h : Holds mem a (before ++ (method ++ (gap ++ (target ++ (gap' ++ (version ++ after)))))))
    (hn : n = before.length + (method.length + (gap.length + (target.length +
      (gap'.length + (version.length + after.length)))))) :
    r.parseRequestLine mem a (a + n) = (do
      let (ok, r) ← r.setMethodType mem (a + before.length)
        (a + (before.length + method.length))
      if ok then
        let r ← r.setPath mem (a + (before.length + method.length + gap.length))
          (a + (before.length + method.length + gap.length + target.length))
        r.parseVersion mem (a + (before.length + method.length + gap.length + target.length))
          (a + n)
      else pure (false, r)) := by
  simp only [holds_append] at h
  obtain ⟨hb, hm, hg, ht, hg', hv, _⟩ := h
  have hmlen := List.length_pos_iff.mpr hmethod.1
  have hglen := List.length_pos_iff.mpr hgap.2
  have htlen := List.length_pos_iff.mpr htarget.1
  have hg'len := List.length_pos_iff.mpr hgap'.2
  have hstart : skipWhile mem isSpaceByte (a + n - a) a = a + before.length :=
    skipWhile_holds hb (isSpaceByte_spaces hbefore) (isSpaceByte_word hm hmethod) (by omega)
  have hfound : memchr mem 32 (a + n - a) (a + before.length) =
      some (a + before.length + method.length) :=
    memchr_holds hm hmethod.2 (mem_gap hg hgap) (by omega)
  have hpath : skipWhile mem isSpaceByte (a + n - (a + before.length + method.length))
      (a + before.length + method.length) = a + before.length + method.length + gap.length :=
    skipWhile_holds hg (isSpaceByte_spaces hgap.1) (isSpaceByte_word ht htarget) (by omega)
  have hfound' : memchr mem 32 (a + n - a) (a + before.length + method.length + gap.length) =
      some (a + before.length + method.length + gap.length + target.length) :=
    memchr_holds ht htarget.2 (mem_gap hg' hgap') (by omega)
  simp only [parseRequestLine, hstart, hfound, parsePath, hpath, hfound',
    show ¬a + before.length = a + n by omega,
    show ¬a + before.length + method.length + gap.length = a + n by omega, if_false,
    ← Nat.add_assoc]

theorem setMethodType_ok {start stop : Nat} (h : start ≤ stop) :
    ∃ ok r', r.setMethodType mem start stop = .ok (ok, r') := by
  simp only [setMethodType, slice, if_neg (Nat.not_lt.mpr h), pure, Except.pure, bind, Except.bind]
  split
  · exact ⟨_, _, rfl⟩
  · split
    · exact ⟨_, _, rfl⟩
    · exact ⟨_, _, rfl⟩

theorem setVersionType_ok {start stop : Nat} (h : start ≤ stop) :
    ∃ ok r', r.setVersionType mem start stop = .ok (ok, r') := by
  simp only [setVersionType, slice, if_neg (Nat.not_lt.mpr h), pure, Except.pure, bind, Except.bind]
  split
  · exact ⟨_, _, rfl⟩
  · split
    · exact ⟨_, _, rfl⟩
    · exact ⟨_, _, rfl⟩

theorem setPath_ok {start stop : Nat} (h : start ≤ stop) :
    ∃ r', r.setPath mem start stop = .ok r' := by
  simp only [setPath, slice, if_neg (Nat.not_lt.mpr h), pure, Except.pure, bind, Except.bind]
  exact ⟨_, rfl⟩

/-- The version ends behind its first byte. -/
theorem parseVersion_ok {i : Nat} (hi : i ≤ n) :
    ∃ ok r', r.parseVersion mem (a + i) (a + n) = .ok (ok, r') := by
  have h : ∀ k < n, mem (a + k) = mem (a + k) := fun _ _ => rfl
  obtain ⟨k, _, hkn, hstart, _, hstop⟩ := skipWhile_moved h isSpaceByte hi (Nat.le_refl n)
  simp only [parseVersion, Nat.add_sub_add_left, hstart, Nat.add_left_cancel_iff]
  split
  · exact ⟨_, _, rfl⟩
  · obtain ⟨m, hkm, _, hback, _⟩ :=
      skipBack_moved h isSpaceByte (by omega) (Nat.le_refl n) (hstop (by omega))
    rw [hback]
    exact setVersionType_ok (by omega)

theorem parseRequestLine_wellFormed (hw : WellFormedRequestLine line) (h : Holds mem a line)
    (h' : Holds mem' a' line) :
    r.parseRequestLine mem a (a + line.length) =
      r.parseRequestLine mem' a' (a' + line.length) := by
  have hsame : ∀ k < line.length, mem (a + k) = mem' (a' + k) :=
    fun k hk => (h k hk).trans (h' k hk).symm
  obtain ⟨before, method, gap, target, gap', version, after, rfl, hbefore, hmethod, hgap, htarget,
    hgap', _, _⟩ := hw
  have hn : ∀ l : List UInt8, l = before ++ (method ++ (gap ++ (target ++ (gap' ++
      (version ++ after))))) → l.length = before.length + (method.length + (gap.length +
        (target.length + (gap'.length + (version.length + after.length))))) := by
    intro l hl
    simp only [hl, List.length_append]
  have hlength := hn _ rfl
  rw [parseRequestLine_words hbefore hmethod hgap htarget hgap' h hlength,
    parseRequestLine_words hbefore hmethod hgap htarget hgap' h' hlength,
    setMethodType_moved hsame (by omega)]
  simp only [setPath, slice_moved hsame (i := before.length + method.length + gap.length)
    (j := before.length + method.length + gap.length + target.length) (by omega),
    parseVersion_moved hsame
      (i := before.length + method.length + gap.length + target.length) (by omega)]

theorem parseRequestLine_ok (hw : WellFormedRequestLine line) (h : Holds mem a line) :
    ∃ ok r', r.parseRequestLine mem a (a + line.length) = .ok (ok, r') := by
  obtain ⟨before, method, gap, target, gap', version, after, rfl, hbefore, hmethod, hgap, htarget,
    hgap', _, _⟩ := hw
  rw [parseRequestLine_words hbefore hmethod hgap htarget hgap' h (by simp)]
  obtain ⟨ok, r₁, hr₁⟩ := @setMethodType_ok mem r (a + before.length)
    (a + (before.length + method.length)) (by omega)
  rw [hr₁]
  cases ok with
  | false => exact ⟨_, _, rfl⟩
  | true =>
    obtain ⟨r₂, hr₂⟩ := @setPath_ok mem r₁ (a + (before.length + method.length + gap.length))
      (a + (before.length + method.length + gap.length + target.length)) (by omega)
    simp only [bind, Except.bind, if_true, hr₂]
    apply parseVersion_ok
    simp only [List.length_append]
    omega

theorem parseHeaderLine_ok (mem : Nat → UInt8) (a n : Nat) :
    ∃ ok r', r.parseHeaderLine mem a (a + n) = .ok (ok, r') := by
  have h : ∀ k < n, mem (a + k) = mem (a + k) := fun _ _ => rfl
  simp only [parseHeaderLine, Nat.add_sub_cancel_left]
  obtain ⟨hnone, _⟩ | ⟨c, hcn, hsome, _⟩ := colon_moved h
  · rw [hnone]
    exact ⟨_, _, rfl⟩
  · obtain ⟨i, _, hic, hkey, _, hkeyStop⟩ :=
      skipWhile_moved h isspace (Nat.zero_le c) (Nat.le_of_lt hcn)
    obtain ⟨j, _, hjn, hvalue, _, hvalueStop⟩ :=
      skipWhile_moved h isspace (i := c + 1) hcn (Nat.le_refl n)
    simp only [Nat.sub_zero, Nat.add_zero] at hkey
    simp only [hsome, Nat.add_sub_cancel_left, hkey, Nat.add_assoc, Nat.add_sub_add_left, hvalue,
      Nat.add_left_cancel_iff]
    split
    · exact ⟨_, _, rfl⟩
    · obtain ⟨i', hi', _, hkeyEnd, _⟩ :=
        skipBack_moved h isspace (by omega) (Nat.le_of_lt hcn) (hkeyStop (by omega))
      have hkeySlice : slice mem (a + i) (a + i') =
          .ok ((List.range' (a + i) (a + i' - (a + i))).map mem) := if_neg (by omega)
      rw [hkeyEnd, hkeySlice]
      split
      · have hvalueSlice : slice mem (a + j) (a + n) =
            .ok ((List.range' (a + j) (a + n - (a + j))).map mem) := if_neg (by omega)
        rw [hvalueSlice]
        exact ⟨_, _, rfl⟩
      · obtain ⟨j', hj', _, hvalueEnd, _⟩ :=
          skipBack_moved h isspace (by omega) (Nat.le_refl n) (hvalueStop (by omega))
        have hvalueSlice : slice mem (a + j) (a + j') =
            .ok ((List.range' (a + j) (a + j' - (a + j))).map mem) := if_neg (by omega)
        rw [hvalueEnd, hvalueSlice]
        exact ⟨_, _, rfl⟩

end HttpRequest

end Holds

end XubinhServer

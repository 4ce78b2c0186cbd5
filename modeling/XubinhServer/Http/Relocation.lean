import XubinhServer.Http.Request

/-! A request line or a header line that can be parsed is parsed in the same way wherever it
lies in memory, and whatever lies around it. -/
namespace XubinhServer

/-- The bytes of a line, with the `\r` behind it that ends it. -/
def lineMemory (text : List UInt8) (i : Nat) : UInt8 := text[i]?.getD 13

section Moved
variable {mem mem' : Nat → UInt8} {a a' n : Nat}

theorem skipWhile_moved (h : ∀ k < n, mem (a + k) = mem' (a' + k)) (p : UInt8 → Bool)
    {i j : Nat} (hij : i ≤ j) (hj : j ≤ n) :
    ∃ k, i ≤ k ∧ k ≤ j ∧ skipWhile mem p (j - i) (a + i) = a + k ∧
      skipWhile mem' p (j - i) (a' + i) = a' + k ∧ (k < j → p (mem (a + k)) = false) := by
  induction hm : j - i generalizing i with
  | zero => exact ⟨i, by omega, by omega, rfl, rfl, fun _ => by omega⟩
  | succ m ih =>
    rw [skipWhile, skipWhile, ← h i (by omega)]
    cases hp : p (mem (a + i)) with
    | true =>
      obtain ⟨k, hik, hkj, hmem, hmem', hstop⟩ := ih (i := i + 1) (by omega) (by omega)
      exact ⟨k, by omega, hkj, hmem, hmem', hstop⟩
    | false => exact ⟨i, by omega, by omega, rfl, rfl, fun _ => hp⟩

theorem skipBack_le (p : UInt8 → Bool) (pos : Nat) : skipBack mem p pos ≤ pos := by
  induction pos with
  | zero => simp [skipBack]
  | succ pos ih =>
    rw [skipBack]
    split <;> omega

/-- A scan backwards ends behind the last byte that it does not skip. -/
theorem skipBack_moved (h : ∀ k < n, mem (a + k) = mem' (a' + k)) (p : UInt8 → Bool)
    {i j : Nat} (hij : i < j) (hj : j ≤ n) (hp : p (mem (a + i)) = false) :
    ∃ k, i < k ∧ k ≤ j ∧ skipBack mem p (a + j) = a + k ∧ skipBack mem' p (a' + j) = a' + k := by
  induction j with
  | zero => omega
  | succ j ih =>
    rw [← Nat.add_assoc, ← Nat.add_assoc, skipBack, skipBack, ← h j (by omega)]
    cases hpj : p (mem (a + j)) with
    | true =>
      have hne : i ≠ j := by
        intro heq
        subst heq
        rw [hp] at hpj
        cases hpj
      obtain ⟨k, hik, hkj, hmem, hmem'⟩ := ih (by omega) (by omega)
      exact ⟨k, hik, by omega, hmem, hmem'⟩
    | false => exact ⟨j + 1, by omega, by omega, rfl, rfl⟩

theorem memchr_eq_some {c : UInt8} {m pos q : Nat} :
    memchr mem c m pos = some q ↔
      pos ≤ q ∧ q < pos + m ∧ mem q = c ∧ ∀ i, pos ≤ i → i < q → mem i ≠ c := by
  induction m generalizing pos with
  | zero =>
    simp only [memchr, reduceCtorEq, false_iff]
    omega
  | succ m ih =>
    rw [memchr]
    split
    · rename_i hc
      constructor
      · intro hq
        cases hq
        exact ⟨Nat.le_refl _, by omega, hc, fun i _ _ => by omega⟩
      · intro h
        obtain ⟨hle, _, _, hfirst⟩ := h
        by_contra hne
        have hlt : pos < q := Nat.lt_of_le_of_ne hle fun heq => hne (congrArg some heq)
        exact hfirst pos (Nat.le_refl _) hlt hc
    · rename_i hc
      rw [ih]
      constructor
      · intro h
        obtain ⟨hle, hlt, hq, hfirst⟩ := h
        refine ⟨by omega, by omega, hq, fun i hi hiq => ?_⟩
        by_cases hpos : i = pos
        · rwa [hpos]
        · exact hfirst i (by omega) hiq
      · intro h
        obtain ⟨hle, hlt, hq, hfirst⟩ := h
        have hne : pos ≠ q := by
          intro heq1
          subst heq1
          exact hc hq
        exact ⟨by omega, by omega, hq, fun i hi => hfirst i (by omega)⟩

theorem memchr_moved (h : ∀ k < n, mem (a + k) = mem' (a' + k)) {c : UInt8} {m i k : Nat}
    (hk : k < n) (hfound : memchr mem c m (a + i) = some (a + k)) :
    memchr mem' c m (a' + i) = some (a' + k) := by
  rw [memchr_eq_some] at hfound ⊢
  obtain ⟨hle, hlt, hc, hfirst⟩ := hfound
  refine ⟨by omega, by omega, by rw [← h k hk, hc], fun j hj hjk => ?_⟩
  have hbefore := hfirst (a + (j - a')) (by omega) (by omega)
  rwa [h (j - a') (by omega), show a' + (j - a') = j by omega] at hbefore

theorem slice_moved (h : ∀ k < n, mem (a + k) = mem' (a' + k)) {i j : Nat} (hj : j ≤ n) :
    slice mem (a + i) (a + j) = slice mem' (a' + i) (a' + j) := by
  simp only [slice, Nat.add_lt_add_iff_left, Nat.add_sub_add_left]
  split
  · rfl
  · congr 1
    apply List.ext_getElem
    · simp
    · intro k hk _
      simp only [List.length_map, List.length_range'] at hk
      simp only [List.getElem_map, List.getElem_range', Nat.one_mul, Nat.add_assoc]
      exact h (i + k) (by omega)

namespace HttpRequest

variable {r : HttpRequest}

theorem parseVersion_moved (h : ∀ k < n, mem (a + k) = mem' (a' + k)) {i : Nat} (hi : i ≤ n) :
    r.parseVersion mem (a + i) (a + n) = r.parseVersion mem' (a' + i) (a' + n) := by
  obtain ⟨k, hik, hkn, hstart, hstart', hstop⟩ :=
    skipWhile_moved h isSpaceByte hi (Nat.le_refl n)
  simp only [parseVersion, Nat.add_sub_add_left, hstart, hstart', Nat.add_left_cancel_iff]
  split
  · rfl
  · obtain ⟨m, -, hmn, hback, hback'⟩ :=
      skipBack_moved h isSpaceByte (by omega) (Nat.le_refl n) (hstop (by omega))
    rw [hback, hback', setVersionType, setVersionType, slice_moved h hmn]

/-- A version that starts behind the line is a reversed range. -/
theorem parseVersion_beyond {r' : HttpRequest} {pathEnd stop : Nat} (hlt : stop < pathEnd) :
    r.parseVersion mem pathEnd stop ≠ .ok (true, r') := by
  have hback : skipBack mem isSpaceByte stop ≤ stop := skipBack_le isSpaceByte stop
  have hreversed : skipBack mem isSpaceByte stop < pathEnd := by omega
  rw [parseVersion, Nat.sub_eq_zero_of_le (Nat.le_of_lt hlt), skipWhile, if_neg (by omega),
    setVersionType, slice, if_pos hreversed]
  nofun

theorem parsePath_moved (h : ∀ k < n, mem (a + k) = mem' (a' + k)) (hcr : mem (a + n) = 13)
    {r' : HttpRequest} {i : Nat} (hi : i ≤ n)
    (hok : r.parsePath mem (a + i) a (a + n) = .ok (true, r')) :
    r.parsePath mem' (a' + i) a' (a' + n) = .ok (true, r') := by
  obtain ⟨k, hik, hkn, hstart, hstart', -⟩ :=
    skipWhile_moved h isSpaceByte hi (Nat.le_refl n)
  simp only [parsePath, Nat.add_sub_add_left, Nat.add_sub_cancel_left, hstart, hstart',
    Nat.add_left_cancel_iff] at hok ⊢
  split at hok
  · cases hok
  · rename_i hne
    rw [if_neg hne]
    cases hfound : memchr mem 32 n (a + k) with
    | none =>
      rw [hfound] at hok
      cases hok
    | some pathEnd =>
      rw [hfound] at hok
      obtain ⟨hle, -, hspace, -⟩ := memchr_eq_some.mp hfound
      obtain ⟨m, rfl⟩ : ∃ m, pathEnd = a + m := ⟨pathEnd - a, by omega⟩
      have hmn : m < n := by
        by_contra hbeyond
        have hne : m ≠ n := by
          intro heq
          subst heq
          rw [hcr] at hspace
          cases hspace
        cases hpath : r.setPath mem (a + k) (a + m) with
        | error e =>
          simp only [hpath, bind, Except.bind] at hok
          cases hok
        | ok r₁ =>
          simp only [hpath, bind, Except.bind] at hok
          exact parseVersion_beyond (by omega) hok
      rw [memchr_moved h hmn hfound]
      simp only [setPath, slice_moved h (Nat.le_of_lt hmn)] at hok ⊢
      simp only [parseVersion_moved h (Nat.le_of_lt hmn)] at hok
      exact hok

theorem setMethodType_moved (h : ∀ k < n, mem (a + k) = mem' (a' + k)) {i j : Nat}
    (hj : j ≤ n) :
    r.setMethodType mem (a + i) (a + j) = r.setMethodType mem' (a' + i) (a' + j) := by
  rw [setMethodType, setMethodType, slice_moved h hj]

/-- A method that reaches the end of the line is not supported. -/
theorem setMethodType_beyond {r' : HttpRequest} {start stop pos : Nat} (hcr : mem pos = 13)
    (hstart : start ≤ pos) (hstop : pos < stop) :
    r.setMethodType mem start stop ≠ .ok (true, r') := by
  have hslice : slice mem start stop = .ok ((List.range' start (stop - start)).map mem) := by
    rw [slice, if_neg (by omega)]
    rfl
  have hmem : (13 : UInt8) ∈ (List.range' start (stop - start)).map mem := by
    rw [List.mem_map]
    exact ⟨pos, by rw [List.mem_range'_1]; omega, hcr⟩
  have hget : (List.range' start (stop - start)).map mem ≠ bytes "GET" := by
    intro heq
    rw [heq] at hmem
    exact absurd hmem (by decide)
  have hpost : (List.range' start (stop - start)).map mem ≠ bytes "POST" := by
    intro heq
    rw [heq] at hmem
    exact absurd hmem (by decide)
  simp only [setMethodType, hslice, bind, Except.bind, if_neg hget, if_neg hpost]
  nofun

/-- The scans may run past the end of the line, but what they find there makes no request
line. -/
theorem parseRequestLine_moved (h : ∀ k < n, mem (a + k) = mem' (a' + k))
    (hcr : mem (a + n) = 13) {r' : HttpRequest}
    (hok : r.parseRequestLine mem a (a + n) = .ok (true, r')) :
    r.parseRequestLine mem' a' (a' + n) = .ok (true, r') := by
  obtain ⟨k, -, hkn, hstart, hstart', -⟩ :=
    skipWhile_moved h isSpaceByte (Nat.zero_le n) (Nat.le_refl n)
  simp only [Nat.sub_zero, Nat.add_zero] at hstart hstart'
  simp only [parseRequestLine, Nat.add_sub_cancel_left, hstart, hstart',
    Nat.add_left_cancel_iff] at hok ⊢
  split at hok
  · cases hok
  · rename_i hne
    rw [if_neg hne]
    cases hfound : memchr mem 32 n (a + k) with
    | none =>
      rw [hfound] at hok
      cases hok
    | some methodEnd =>
      rw [hfound] at hok
      obtain ⟨hle, -, hspace, -⟩ := memchr_eq_some.mp hfound
      obtain ⟨m, rfl⟩ : ∃ m, methodEnd = a + m := ⟨methodEnd - a, by omega⟩
      cases hmethod : r.setMethodType mem (a + k) (a + m) with
      | error e =>
        simp only [hmethod, bind, Except.bind] at hok
        cases hok
      | ok result =>
        obtain ⟨ok, r₁⟩ := result
        simp only [hmethod, bind, Except.bind] at hok
        cases ok with
        | false => cases hok
        | true =>
          have hmn : m < n := by
            by_contra hbeyond
            have hne : m ≠ n := by
              intro heq
              subst heq
              rw [hcr] at hspace
              cases hspace
            exact setMethodType_beyond hcr (by omega) (by omega) hmethod
          rw [setMethodType_moved h (Nat.le_of_lt hmn)] at hmethod
          simp only [memchr_moved h hmn hfound, hmethod, bind, Except.bind]
          exact parsePath_moved h hcr (Nat.le_of_lt hmn) hok

theorem colon_moved (h : ∀ k < n, mem (a + k) = mem' (a' + k)) :
    memchr mem 58 n a = none ∧ memchr mem' 58 n a' = none ∨
      ∃ c < n, memchr mem 58 n a = some (a + c) ∧ memchr mem' 58 n a' = some (a' + c) := by
  have hsymm : ∀ k < n, mem' (a' + k) = mem (a + k) := fun k hk => (h k hk).symm
  cases hfound : memchr mem 58 n a with
  | some colon =>
    right
    obtain ⟨hle, hlt, -⟩ := memchr_eq_some.mp hfound
    obtain ⟨c, rfl⟩ : ∃ c, colon = a + c := ⟨colon - a, by omega⟩
    exact ⟨c, by omega, rfl, memchr_moved (i := 0) h (by omega) hfound⟩
  | none =>
    left
    cases hfound' : memchr mem' 58 n a' with
    | none => exact ⟨rfl, rfl⟩
    | some colon =>
      obtain ⟨hle, hlt, -⟩ := memchr_eq_some.mp hfound'
      obtain ⟨c, rfl⟩ : ∃ c, colon = a' + c := ⟨colon - a', by omega⟩
      have hmoved := memchr_moved (i := 0) hsymm (by omega) hfound'
      rw [Nat.add_zero, hfound] at hmoved
      cases hmoved

theorem parseHeaderLine_moved (h : ∀ k < n, mem (a + k) = mem' (a' + k)) :
    r.parseHeaderLine mem a (a + n) = r.parseHeaderLine mem' a' (a' + n) := by
  simp only [parseHeaderLine, Nat.add_sub_cancel_left]
  obtain ⟨hnone, hnone'⟩ | ⟨c, hcn, hsome, hsome'⟩ := colon_moved h
  · rw [hnone, hnone']
  · obtain ⟨i, -, hic, hkey, hkey', hkeyStop⟩ :=
      skipWhile_moved h isspace (Nat.zero_le c) (Nat.le_of_lt hcn)
    obtain ⟨j, hcj, hjn, hvalue, hvalue', hvalueStop⟩ :=
      skipWhile_moved h isspace (i := c + 1) hcn (Nat.le_refl n)
    simp only [Nat.sub_zero, Nat.add_zero] at hkey hkey'
    simp only [hsome, hsome', Nat.add_sub_cancel_left, hkey, hkey', Nat.add_assoc,
      Nat.add_sub_add_left, hvalue, hvalue', Nat.add_left_cancel_iff]
    split
    · rfl
    · obtain ⟨i', -, hi'c, hkeyEnd, hkeyEnd'⟩ :=
        skipBack_moved h isspace (by omega) (Nat.le_of_lt hcn) (hkeyStop (by omega))
      rw [hkeyEnd, hkeyEnd', slice_moved h (i := i) (by omega : i' ≤ n)]
      split
      · rw [slice_moved h (Nat.le_refl n)]
      · obtain ⟨j', -, hj'n, hvalueEnd, hvalueEnd'⟩ :=
          skipBack_moved h isspace (by omega) (Nat.le_refl n) (hvalueStop (by omega))
        rw [hvalueEnd, hvalueEnd', slice_moved h hj'n]

end HttpRequest

end Moved

end XubinhServer

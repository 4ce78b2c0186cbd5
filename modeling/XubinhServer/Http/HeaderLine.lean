import Mathlib.Data.List.DropRight
import XubinhServer.Http.RoundTrip

/-! A header line as a list of bytes: the key in front of the first colon and the value behind it,
with the white space around either taken off. -/
namespace XubinhServer

def trim (s : List UInt8) : List UInt8 := (s.dropWhile isspace).rdropWhile isspace

/-- The key and the value of a header line; `none` stands for a line without a colon, or without a
key in front of it. -/
def headerField (line : List UInt8) : Option (List UInt8 × List UInt8) :=
  match line.dropWhile (· ≠ 58) with
  | [] => none
  | _ :: value =>
    let key := trim (line.takeWhile (· ≠ 58))
    if key = [] then none else some (key, trim value)

/-- The fields of the lines in front of the first one without a field, and the lines from there
on. -/
def storedFields : List (List UInt8) → Headers × List (List UInt8)
  | [] => ([], [])
  | line :: rest =>
    match headerField line with
    | none => ([], line :: rest)
    | some field => (field :: (storedFields rest).1, (storedFields rest).2)

/-- A line that neither is blank nor has another line in it. -/
structure IsLine (line : List UInt8) : Prop where
  nonempty : line ≠ []
  whole : MutableSizeTcpBuffer.crlfIndex line = none

def linesText (lines : List (List UInt8)) : List UInt8 := lines.flatMap (· ++ bytes "\r\n")

section Scans

variable {mem : Nat → UInt8} {a : Nat} {s line : List UInt8} {p : UInt8 → Bool}

theorem trimmed_trim (s : List UInt8) : Trimmed (trim s) := by
  constructor
  · intro b hb
    obtain ⟨after, hafter⟩ := List.rdropWhile_prefix isspace (s.dropWhile isspace)
    have hhead : (s.dropWhile isspace).head? = some b := by
      rw [← hafter, List.head?_append]
      rw [Option.mem_def, trim] at hb
      rw [hb]
      rfl
    have hnot := List.head?_dropWhile_not isspace s
    rw [hhead] at hnot
    simpa using hnot
  · intro b hb
    have hne : trim s ≠ [] := by
      intro hnil
      rw [hnil] at hb
      cases hb
    have hlast := List.rdropWhile_last_not isspace (s.dropWhile isspace) hne
    rw [Option.mem_def, List.getLast?_eq_some_getLast hne, Option.some.injEq] at hb
    rw [← hb, ← Bool.not_eq_true]
    exact hlast

/-- What is taken off are spaces. -/
theorem exists_trim (s : List UInt8) :
    ∃ before after, s = before ++ (trim s ++ after) ∧ (∀ b ∈ before, isspace b = true) ∧
      ∀ b ∈ after, isspace b = true := by
  refine ⟨s.takeWhile isspace, (s.dropWhile isspace).rtakeWhile isspace, ?_,
    fun b hb => List.mem_takeWhile_imp hb, fun b hb => List.mem_rtakeWhile_imp hb⟩
  rw [trim, List.rdropWhile_append_rtakeWhile, List.takeWhile_append_dropWhile]

/-- A scan from both ends finds what `trim` leaves. -/
theorem scan_trim (h : Holds mem a s) :
    (trim s = [] ∧ skipWhile mem isspace s.length a = a + s.length) ∨
      ∃ i j, i < s.length ∧ trim s ≠ [] ∧ skipWhile mem isspace s.length a = a + i ∧
        skipBack mem isspace (a + s.length) = a + j ∧
        slice mem (a + i) (a + j) = .ok (trim s) := by
  obtain ⟨before, after, hsplit, hbefore, hafter⟩ := exists_trim s
  have htrimmed := trimmed_trim s
  by_cases hnil : trim s = []
  · left
    rw [hnil, List.nil_append] at hsplit
    refine ⟨hnil, skipWhile_all h fun b hb => ?_⟩
    rw [hsplit, List.mem_append] at hb
    cases hb with
    | inl hb => exact hbefore b hb
    | inr hb => exact hafter b hb
  · right
    have hlength := congrArg List.length hsplit
    rw [List.length_append, List.length_append] at hlength
    have hpos : 0 < (trim s).length := List.length_pos_iff.mpr hnil
    rw [hsplit] at h
    obtain ⟨hb, hrest⟩ := holds_append.mp h
    obtain ⟨ht, ha⟩ := holds_append.mp hrest
    have hstop : isspace (mem (a + before.length)) = false := by
      rw [holds_head ht hnil]
      exact htrimmed.1 _ (List.head?_eq_some_head hnil)
    have hback := skipBack_all ha hafter
    rw [skipBack_trimmed ht htrimmed hnil] at hback
    have hslice := slice_holds ht
    refine ⟨before.length, before.length + (trim s).length, by omega, hnil, ?_, ?_, ?_⟩
    · exact skipWhile_holds hb hbefore hstop (by omega)
    · rw [hlength, show a + (before.length + ((trim s).length + after.length)) =
        a + before.length + (trim s).length + after.length by omega, hback]
      omega
    · rw [← hslice]
      congr 1
      omega

theorem headerField_of_noColon (h : (58 : UInt8) ∉ line) : headerField line = none := by
  have hdrop : line.dropWhile (· ≠ 58) = [] := by
    rw [List.dropWhile_eq_nil_iff]
    intro b hb
    have hne : b ≠ 58 := fun heq => h (heq ▸ hb)
    exact decide_eq_true hne
  rw [headerField, hdrop]

theorem takeWhile_name {name : List UInt8} (h : (58 : UInt8) ∉ name) (value : List UInt8) :
    (name ++ (58 :: value)).takeWhile (· ≠ 58) = name := by
  have hall : ∀ b ∈ name, decide (b ≠ 58) = true := by
    intro b hb
    have hne : b ≠ 58 := fun heq => h (heq ▸ hb)
    exact decide_eq_true hne
  rw [List.takeWhile_append_of_pos hall, List.takeWhile_cons_of_neg (by simp), List.append_nil]

theorem dropWhile_name {name : List UInt8} (h : (58 : UInt8) ∉ name) (value : List UInt8) :
    (name ++ (58 :: value)).dropWhile (· ≠ 58) = 58 :: value := by
  have hall : ∀ b ∈ name, decide (b ≠ 58) = true := by
    intro b hb
    have hne : b ≠ 58 := fun heq => h (heq ▸ hb)
    exact decide_eq_true hne
  rw [List.dropWhile_append_of_pos hall, List.dropWhile_cons_of_neg (by simp)]

theorem headerField_append {name value : List UInt8} (h : (58 : UInt8) ∉ name) :
    headerField (name ++ (58 :: value)) =
      if trim name = [] then none else some (trim name, trim value) := by
  rw [headerField, dropWhile_name h, takeWhile_name h]

/-- A line is either without a colon or has a name in front of the first one. -/
theorem exists_name (line : List UInt8) :
    (58 : UInt8) ∉ line ∨ ∃ name value, line = name ++ (58 :: value) ∧ (58 : UInt8) ∉ name := by
  by_cases h : (58 : UInt8) ∈ line
  · obtain ⟨name, value, hline, hname⟩ := List.eq_append_cons_of_mem h
    exact .inr ⟨name, value, hline, hname⟩
  · exact .inl h

/-- The parser takes the field of the line. -/
theorem HttpRequest.parseHeaderLine_field (r : HttpRequest) (h : Holds mem a line) :
    r.parseHeaderLine mem a (a + line.length) =
      .ok (match headerField line with
        | none => (false, r)
        | some (key, value) => (true, { r with headers := r.headers.assign key value })) := by
  obtain hnone | ⟨name, value, rfl, hname⟩ := exists_name line
  · have hmemchr : memchr mem 58 line.length a = none := by
      cases hfound : memchr mem 58 line.length a with
      | none => rfl
      | some q =>
        obtain ⟨hle, hlt, hq, _⟩ := memchr_eq_some.mp hfound
        have hk := h (q - a) (by omega)
        rw [show a + (q - a) = q by omega, hq] at hk
        exact absurd (hk ▸ List.getElem_mem _) hnone
    rw [headerField_of_noColon hnone, parseHeaderLine, Nat.add_sub_cancel_left, hmemchr]
    rfl
  · obtain ⟨hnameHolds, hbehind⟩ := holds_append.mp h
    obtain ⟨hcolon, hvalueHolds⟩ := holds_cons.mp hbehind
    have hlength : (name ++ (58 :: value)).length = name.length + (1 + value.length) := by
      rw [List.length_append, List.length_cons]
      omega
    have hmemchr : memchr mem 58 (name.length + (1 + value.length)) a = some (a + name.length) :=
      memchr_holds hnameHolds hname hcolon (by omega)
    have hstop : a + (name.length + (1 + value.length)) = a + name.length + 1 + value.length := by
      omega
    rw [headerField_append hname, hlength, parseHeaderLine, Nat.add_sub_cancel_left, hmemchr]
    simp only [hstop, Nat.add_sub_cancel_left]
    obtain ⟨hnil, hkey⟩ | ⟨i, j, hi, hne, hkeyStart, hkeyEnd, hkeySlice⟩ := scan_trim hnameHolds
    · rw [hkey, if_pos rfl, if_pos hnil]
      rfl
    · have hi' : a + i ≠ a + name.length := by omega
      simp only [hkeyStart, if_neg hi', hkeyEnd, hkeySlice, if_neg hne, bind, Except.bind]
      obtain ⟨hnil, hvalue⟩ | ⟨k, l, hk, _, hvalueStart, hvalueEnd, hvalueSlice⟩ :=
        scan_trim hvalueHolds
      · have hempty : slice mem (a + name.length + 1 + value.length)
            (a + name.length + 1 + value.length) = .ok [] := by
          rw [slice, if_neg (Nat.lt_irrefl _), Nat.sub_self]
          rfl
        rw [hvalue, if_pos rfl, hempty, hnil]
        rfl
      · have hk' : a + name.length + 1 + k ≠ a + name.length + 1 + value.length := by omega
        rw [hvalueStart, if_neg hk', hvalueEnd, hvalueSlice]
        rfl

end Scans

open MutableSizeTcpBuffer in
/-- A line without `\r\n` ends where the one behind it begins, even if its last byte is `\r`. -/
theorem crlfIndex_of_whole {line : List UInt8} (h : crlfIndex line = none) (rest : List UInt8) :
    crlfIndex (line ++ (bytes "\r\n" ++ rest)) = some line.length := by
  induction line with
  | nil => rfl
  | cons x line ih =>
    cases line with
    | nil =>
      have hcrlf : ¬(x = 13 ∧ (13 : UInt8) = 10) := fun hxy => absurd hxy.2 (by decide)
      have hnext : crlfIndex (13 :: 10 :: rest) = some 0 := rfl
      change crlfIndex (x :: 13 :: 10 :: rest) = some 1
      rw [crlfIndex, if_neg hcrlf, hnext]
      rfl
    | cons y line =>
      rw [crlfIndex] at h
      split at h
      · cases h
      · rename_i hxy
        rw [Option.map_eq_none_iff] at h
        have hline := ih h
        rw [List.cons_append] at hline
        rw [List.cons_append, List.cons_append, crlfIndex, if_neg hxy, hline]
        rfl

namespace HttpParser

variable {p q : HttpParser} {timeStamp : Int} {line rest v : List UInt8}
  {lines more : List (List UInt8)}

theorem eat_line (hs : p.parsingState = .expectHeaders) (hline : IsLine line)
    {key value : List UInt8} (hfield : headerField line = some (key, value)) :
    eat timeStamp p (line ++ (bytes "\r\n" ++ rest)) =
      some ({ p with request.headers := p.request.headers.assign key value }, rest) := by
  have hne : line.length ≠ 0 := fun hzero => hline.nonempty (List.length_eq_zero_iff.mp hzero)
  have hparse := p.request.parseHeaderLine_field (holds_lineMemory line)
  rw [Nat.zero_add, hfield] at hparse
  rw [eat]
  simp only [hs, crlfIndex_of_whole hline.whole, if_neg hne, List.take_left, hparse]
  rw [← List.append_assoc, List.drop_left' (by rw [List.length_append]; rfl)]

theorem refuse_line (hs : p.parsingState = .expectHeaders) (hline : IsLine line)
    (hfield : headerField line = none) :
    refuse p (line ++ (bytes "\r\n" ++ rest)) = some { p with parsingState := .fail } := by
  have hne : line.length ≠ 0 := fun hzero => hline.nonempty (List.length_eq_zero_iff.mp hzero)
  have hparse := p.request.parseHeaderLine_field (holds_lineMemory line)
  rw [Nat.zero_add, hfield] at hparse
  rw [refuse]
  simp only [crlfIndex_of_whole hline.whole, hs, if_neg hne, List.take_left, hparse]

/-- The parser stores the fields of the lines up to the first one that has none. -/
theorem ends_lines (hs : p.parsingState = .expectHeaders) (hlines : ∀ line ∈ lines, IsLine line)
    (h : Ends timeStamp
      { p with request.headers := p.request.headers.assignAll (storedFields lines).1 }
      (linesText (storedFields lines).2 ++ rest) q v) :
    Ends timeStamp p (linesText lines ++ rest) q v := by
  induction lines generalizing p with
  | nil => exact h
  | cons line lines ih =>
    rw [storedFields] at h
    split at h
    · exact h
    · rename_i field hfield
      have htext : linesText (line :: lines) ++ rest =
          line ++ (bytes "\r\n" ++ (linesText lines ++ rest)) := by
        simp [linesText]
      rw [htext]
      refine .step (eat_line hs (hlines line List.mem_cons_self) hfield)
        ⟨by simp [hs], by simp [hs]⟩ ?_
      exact ih hs (fun line hmem => hlines line (List.mem_cons_of_mem _ hmem)) h

theorem headerField_of_rest (h : (storedFields lines).2 = line :: more) :
    headerField line = none ∧ line ∈ lines := by
  induction lines with
  | nil => cases h
  | cons first lines ih =>
    rw [storedFields] at h
    split at h
    · rename_i hfield
      cases h
      exact ⟨hfield, List.mem_cons_self⟩
    · obtain ⟨hfield, hmem⟩ := ih h
      exact ⟨hfield, List.mem_cons_of_mem _ hmem⟩

/-- The first line without a field ends the parse. -/
theorem ends_malformed (hs : p.parsingState = .expectHeaders)
    (hlines : ∀ line ∈ lines, IsLine line) (hrest : (storedFields lines).2 = line :: more) :
    Ends timeStamp p (linesText lines ++ rest)
      { p with
        parsingState := .fail
        request.headers := p.request.headers.assignAll (storedFields lines).1 }
      (linesText (line :: more) ++ rest) := by
  obtain ⟨hfield, hmem⟩ := headerField_of_rest hrest
  refine ends_lines hs hlines ?_
  rw [hrest]
  have htext : linesText (line :: more) ++ rest =
      line ++ (bytes "\r\n" ++ (linesText more ++ rest)) := by
    simp [linesText]
  rw [htext]
  exact .refused (refuse_line hs (hlines line hmem) hfield)

end HttpParser

end XubinhServer

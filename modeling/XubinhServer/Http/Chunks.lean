import XubinhServer.Http.Incremental
import XubinhServer.Http.RequestLine

/-! The parser on a stream that arrives in chunks. Whatever the stream is, a request or not, the
chunks lead to the same parser and the same bytes as the stream in one piece, as long as the first
line of it is well formed. -/
namespace XubinhServer.HttpParser

open Transition MutableSizeTcpBuffer

/-- A piece of the stream, the time at which it arrives, and what lies behind the buffer's string
in memory then. -/
structure Chunk where
  data : List UInt8
  timeStamp : Int
  beyond : Nat → UInt8

def stream (chunks : List Chunk) : List UInt8 := (chunks.map Chunk.data).flatten

/-- Append the chunks one by one and call `parse` after each, until it returns false or the
request is complete. What is left are the chunks that have not been appended. -/
def feed (p : HttpParser) (b : MutableSizeTcpBuffer) :
    List Chunk → Except Halt (HttpParser × MutableSizeTcpBuffer × List Chunk)
  | [] => pure (p, b, [])
  | chunk :: rest => do
    let b ← b.append chunk.data
    let (result, p, b) ← parse chunk.beyond chunk.timeStamp p b
    if !result || p.isSuccess then pure (p, b, rest) else feed p b rest

/-- Where the parser expects a request line, the line that comes is one. -/
def Expected (p : HttpParser) (u : List UInt8) : Prop :=
  p.parsingState = .expectRequestLine → ∀ n, crlfIndex u = some n →
    WellFormedRequestLine (u.take n)

/-- The parser behind a line that is complete and wrong. -/
def refuse (p : HttpParser) (u : List UInt8) : Option HttpParser :=
  match crlfIndex u with
  | none => none
  | some n =>
    match p.parsingState with
    | .expectRequestLine =>
      match p.request.parseRequestLine (lineMemory (u.take n)) 0 n with
      | .ok (false, request) => some { p with parsingState := .fail, request }
      | _ => none
    | .expectHeaders =>
      if n = 0 then none
      else
        match p.request.parseHeaderLine (lineMemory (u.take n)) 0 n with
        | .ok (false, request) => some { p with parsingState := .fail, request }
        | _ => none
    | _ => none

/-- Where the parser ends on the bytes `u`, and what it leaves of them. -/
inductive Ends (timeStamp : Int) :
    HttpParser → List UInt8 → HttpParser → List UInt8 → Prop
  | waits {p u} (h : Waits p u) : Ends timeStamp p u p u
  | refused {p u q} (h : refuse p u = some q) : Ends timeStamp p u q u
  | done {p u q v} (h : eat timeStamp p u = some (q, v)) (hq : ¬q.Reading) :
      Ends timeStamp p u q v
  | step {p u q v r w} (h : eat timeStamp p u = some (q, v)) (hq : q.Reading)
      (hrest : Ends timeStamp q v r w) : Ends timeStamp p u r w

section Lines

variable {beyond : Nat → UInt8} {timeStamp : Int} {p q r : HttpParser} {u v w : List UInt8}
  {b : MutableSizeTcpBuffer} {n : Nat}

theorem holds_unread (beyond : Nat → UInt8) (hb : b.Valid) (n : Nat) :
    Holds (b.memory beyond) b.readOffset (b.unread.take n) := by
  intro k hk
  rw [List.length_take] at hk
  rw [hb.memory_eq beyond k (by omega), List.getElem_take]

theorem length_line (hn : crlfIndex u = some n) : (u.take n).length = n := by
  have hlen := (crlfIndex_bound hn).1
  rw [List.length_take]
  omega

/-- A line that is refused ends the call. -/
theorem parse_of_refuse (hb : b.Valid) (hline : Expected p b.unread)
    (h : refuse p b.unread = some q) :
    parse beyond timeStamp p b = .ok (false, q, b) := by
  rw [refuse] at h
  cases hn : crlfIndex b.unread with
  | none =>
    rw [hn] at h
    cases h
  | some n =>
    rw [hn] at h
    cases hs : p.parsingState with
    | expectRequestLine =>
      rw [hs] at h
      simp only at h
      split at h
      · rename_i request hfalse
        cases h
        have hlen := length_line hn
        have hmoved := HttpRequest.parseRequestLine_wellFormed (r := p.request) (hline hs n hn)
          (holds_unread beyond hb n) (holds_lineMemory _)
        rw [hlen, Nat.zero_add, hfalse] at hmoved
        have hphase : expectRequestLine beyond p b =
            .ok ⟨some false, { p with parsingState := .fail, request }, b⟩ := by
          simp [expectRequestLine, getNextCrlfPosition_spec hb, hn, hmoved, bind, Except.bind,
            pure, Except.pure]
        exact parse_of_requestLine hs hphase (by simp)
      · cases h
    | expectHeaders =>
      rw [hs] at h
      simp only at h
      split at h
      · cases h
      · rename_i hne
        split at h
        · rename_i request hfalse
          cases h
          have hphase : expectHeaders beyond timeStamp (b.getReadableSize + 1) p b =
              .ok ⟨some false, { p with parsingState := .fail, request }, b⟩ := by
            simp [expectHeaders, getNextCrlfPosition_spec hb, hn, hne,
              parseHeaderLine_line hb hn, hfalse, bind, Except.bind, pure, Except.pure]
          exact parse_of_headers hs hphase (by simp)
        · cases h
    | expectBody => simp [hs] at h
    | success => simp [hs] at h
    | fail => simp [hs] at h

theorem not_reading_of_refuse (h : refuse p u = some q) : q.parsingState = .fail := by
  rw [refuse] at h
  split at h
  · cases h
  · split at h
    · split at h
      · cases h
        rfl
      · cases h
    · split at h
      · cases h
      · split at h
        · cases h
          rfl
        · cases h
    · cases h

/-- A parser that still reads waits, eats or refuses. -/
theorem waits_or_eats_or_refuses (timeStamp : Int) (hp : p.Reading) (hline : Expected p u) :
    Waits p u ∨ (∃ y, eat timeStamp p u = some y) ∨ ∃ q, refuse p u = some q := by
  cases hs : p.parsingState with
  | expectRequestLine =>
    cases hn : crlfIndex u with
    | none =>
      left
      rw [Waits, hs]
      exact hn
    | some n =>
      right
      obtain ⟨ok, request, hok⟩ := HttpRequest.parseRequestLine_ok (r := p.request)
        (hline hs n hn) (holds_lineMemory _)
      rw [length_line hn, Nat.zero_add] at hok
      cases ok with
      | true =>
        left
        simp only [eat, hs, hn, hok]
        exact ⟨_, rfl⟩
      | false =>
        right
        simp only [refuse, hs, hn, hok]
        exact ⟨_, rfl⟩
  | expectHeaders =>
    cases hn : crlfIndex u with
    | none =>
      left
      rw [Waits, hs]
      exact hn
    | some n =>
      right
      by_cases hzero : n = 0
      · left
        simp only [eat, hs, hn, if_pos hzero]
        exact ⟨_, rfl⟩
      · obtain ⟨ok, request, hok⟩ :=
          HttpRequest.parseHeaderLine_ok (r := p.request) (lineMemory (u.take n)) 0 n
        rw [Nat.zero_add] at hok
        cases ok with
        | true =>
          left
          simp only [eat, hs, hn, if_neg hzero, hok]
          exact ⟨_, rfl⟩
        | false =>
          right
          simp only [refuse, hs, hn, if_neg hzero, hok]
          exact ⟨_, rfl⟩
  | expectBody =>
    by_cases hlen : u.length < p.bodyLength
    · left
      rw [Waits, hs]
      exact hlen
    · right
      left
      simp only [eat, hs, if_neg hlen]
      exact ⟨_, rfl⟩
  | success => exact absurd hs hp.1
  | fail => exact absurd hs hp.2

/-- What is eaten is no longer there, and no request line comes after it. -/
theorem eat_advances (h : eat timeStamp p u = some (q, v)) :
    q.parsingState ≠ .expectRequestLine ∧ (q.Reading → v.length < u.length) := by
  cases hs : p.parsingState with
  | expectRequestLine =>
    simp only [eat, hs] at h
    split at h
    · cases h
    · rename_i n hn
      have hlen := (crlfIndex_bound hn).1
      split at h
      · cases h
        refine ⟨by simp, fun _ => ?_⟩
        rw [List.length_drop]
        omega
      · cases h
  | expectHeaders =>
    simp only [eat, hs] at h
    split at h
    · cases h
    · rename_i n hn
      have hlen := (crlfIndex_bound hn).1
      split at h
      · cases h
        refine ⟨?_, fun _ => ?_⟩
        · obtain hbody | hsuccess | hfail := headersFinished_state timeStamp p
          · simp [hbody]
          · simp [hsuccess]
          · simp [hfail]
        · rw [List.length_drop]
          omega
      · split at h
        · cases h
          refine ⟨by simp, fun _ => ?_⟩
          rw [List.length_drop]
          omega
        · cases h
  | expectBody =>
    simp only [eat, hs] at h
    split at h
    · cases h
    · cases h
      refine ⟨by simp [succeed], fun hq => ?_⟩
      exact absurd rfl hq.1
  | success => simp [eat, hs] at h
  | fail => simp [eat, hs] at h

theorem expected_of_eat (h : eat timeStamp p u = some (q, v)) (w : List UInt8) : Expected q w :=
  fun hs => absurd hs (eat_advances h).1

theorem exists_ends (timeStamp : Int) (hp : p.Reading) (hline : Expected p u) :
    ∃ q v, Ends timeStamp p u q v := by
  induction hn : u.length using Nat.strongRecOn generalizing p u with
  | ind n ih =>
    obtain hwaits | ⟨⟨q, v⟩, heat⟩ | ⟨q, hrefuse⟩ := waits_or_eats_or_refuses timeStamp hp hline
    · exact ⟨p, u, .waits hwaits⟩
    · by_cases hq : q.Reading
      · obtain ⟨r, w, hends⟩ := ih v.length (hn ▸ (eat_advances heat).2 hq) hq
          (expected_of_eat heat v) rfl
        exact ⟨r, w, .step heat hq hends⟩
      · exact ⟨q, v, .done heat hq⟩
    · exact ⟨q, u, .refused hrefuse⟩

theorem reading_of_waits (h : Waits p u) : p.Reading := by
  constructor
  · intro hs
    simp [Waits, hs] at h
  · intro hs
    simp [Waits, hs] at h

theorem refuse_of_waits (h : Waits p u) : refuse p u = none := by
  rw [refuse]
  cases hs : p.parsingState with
  | expectRequestLine =>
    rw [Waits, hs] at h
    simp only at h
    rw [h]
  | expectHeaders =>
    rw [Waits, hs] at h
    simp only at h
    rw [h]
  | expectBody => cases crlfIndex u <;> rfl
  | success => simp [Waits, hs] at h
  | fail => simp [Waits, hs] at h

theorem eat_of_refuse (h : refuse p u = some q) : eat timeStamp p u = none := by
  rw [refuse] at h
  cases hn : crlfIndex u with
  | none =>
    rw [hn] at h
    cases h
  | some n =>
    rw [hn] at h
    cases hs : p.parsingState with
    | expectRequestLine =>
      simp only [hs] at h
      split at h
      · rename_i request hfalse
        simp [eat, hs, hn, hfalse]
      · cases h
    | expectHeaders =>
      simp only [hs] at h
      split at h
      · cases h
      · rename_i hne
        split at h
        · rename_i request hfalse
          simp [eat, hs, hn, hne, hfalse]
        · cases h
    | expectBody => simp [hs] at h
    | success => simp [hs] at h
    | fail => simp [hs] at h

theorem refuse_of_eat (h : eat timeStamp p u = some (q, v)) : refuse p u = none := by
  cases hrefuse : refuse p u with
  | none => rfl
  | some r =>
    rw [eat_of_refuse hrefuse] at h
    cases h

theorem refuse_append (h : refuse p u = some q) (w : List UInt8) :
    refuse p (u ++ w) = some q := by
  rw [refuse] at h ⊢
  cases hn : crlfIndex u with
  | none =>
    rw [hn] at h
    cases h
  | some n =>
    have hlen := (crlfIndex_bound hn).1
    have htake : (u ++ w).take n = u.take n := take_append_left (by omega)
    rw [crlfIndex_append hn w]
    rw [hn] at h
    simp only [htake]
    exact h

/-- One call of `parse` goes as far as the bytes go. -/
theorem parse_of_ends (beyond : Nat → UInt8) (h : Ends timeStamp p u q v) (hb : b.Valid)
    (hu : b.unread = u) (hline : Expected p u) :
    ∃ c : MutableSizeTcpBuffer, c.Valid ∧ c.unread = v ∧
      parse beyond timeStamp p b = .ok (q.parsingState ≠ .fail, q, c) := by
  induction h generalizing b with
  | waits hwaits =>
    subst hu
    refine ⟨b, hb, rfl, ?_⟩
    rw [parse_of_waits hb hwaits]
    simp [(reading_of_waits hwaits).2]
  | refused hrefuse =>
    subst hu
    refine ⟨b, hb, rfl, ?_⟩
    rw [parse_of_refuse hb hline hrefuse]
    simp [not_reading_of_refuse hrefuse]
  | @done p u q v heat hq =>
    subst hu
    obtain ⟨c, hvalid, hunread, hsuccess, _, hfail⟩ := parse_of_eat beyond hb heat
    refine ⟨c, hvalid, hunread, ?_⟩
    by_cases hf : q.parsingState = .fail
    · rw [hfail hf]
      simp [hf]
    · have hs : q.parsingState = .success := by
        by_contra hs
        exact hq ⟨hs, hf⟩
      rw [hsuccess hs]
      simp [hs]
  | step heat hq _ ih =>
    subst hu
    obtain ⟨c, hvalid, hunread, _, hreading, _⟩ := parse_of_eat beyond hb heat
    rw [(hreading hq).2]
    exact ih hvalid hunread (expected_of_eat heat _)

theorem Ends.unique {q' : HttpParser} {v' : List UInt8} (h : Ends timeStamp p u q v)
    (h' : Ends timeStamp p u q' v') : q' = q ∧ v' = v := by
  induction h with
  | waits hwaits =>
    cases h' with
    | waits => exact ⟨rfl, rfl⟩
    | refused hrefuse =>
      rw [refuse_of_waits hwaits] at hrefuse
      cases hrefuse
    | done heat => exact absurd hwaits (not_waits_of_eat heat)
    | step heat => exact absurd hwaits (not_waits_of_eat heat)
  | refused hrefuse =>
    cases h' with
    | waits hwaits =>
      rw [refuse_of_waits hwaits] at hrefuse
      cases hrefuse
    | refused hrefuse' =>
      rw [hrefuse] at hrefuse'
      cases hrefuse'
      exact ⟨rfl, rfl⟩
    | done heat =>
      rw [refuse_of_eat heat] at hrefuse
      cases hrefuse
    | step heat =>
      rw [refuse_of_eat heat] at hrefuse
      cases hrefuse
  | done heat hq =>
    cases h' with
    | waits hwaits => exact absurd hwaits (not_waits_of_eat heat)
    | refused hrefuse =>
      rw [refuse_of_eat heat] at hrefuse
      cases hrefuse
    | done heat' =>
      rw [heat] at heat'
      cases heat'
      exact ⟨rfl, rfl⟩
    | step heat' hq' =>
      rw [heat] at heat'
      cases heat'
      exact absurd hq' hq
  | step heat hq _ ih =>
    cases h' with
    | waits hwaits => exact absurd hwaits (not_waits_of_eat heat)
    | refused hrefuse =>
      rw [refuse_of_eat heat] at hrefuse
      cases hrefuse
    | done heat' hq' =>
      rw [heat] at heat'
      cases heat'
      exact absurd hq hq'
    | step heat' _ hrest =>
      rw [heat] at heat'
      cases heat'
      exact ih hrest

/-- More bytes let a parser that waits go on, and are left by one that has come to its end. -/
theorem Ends.append (h : Ends timeStamp p u q v) (w : List UInt8) :
    (q.Reading → ∀ r x, Ends timeStamp q (v ++ w) r x → Ends timeStamp p (u ++ w) r x) ∧
    (¬q.Reading → Ends timeStamp p (u ++ w) q (v ++ w)) := by
  induction h with
  | waits hwaits => exact ⟨fun _ r x hends => hends, fun hq => absurd (reading_of_waits hwaits) hq⟩
  | refused hrefuse =>
    refine ⟨fun hq => absurd (not_reading_of_refuse hrefuse) hq.2, fun _ => ?_⟩
    exact .refused (refuse_append hrefuse w)
  | done heat hq =>
    refine ⟨fun hq' => absurd hq' hq, fun _ => .done ?_ hq⟩
    rw [eat_append (not_waits_of_eat heat), heat]
    rfl
  | @step p u q v r x heat hq _ ih =>
    have heat' : eat timeStamp p (u ++ w) = some (q, v ++ w) := by
      rw [eat_append (not_waits_of_eat heat), heat]
      rfl
    exact ⟨fun hr y z hends => .step heat' hq (ih.1 hr y z hends),
      fun hr => .step heat' hq (ih.2 hr)⟩

/-- The time matters for the time in the request only. -/
theorem Ends.at_time (h : Ends timeStamp p u q v) (timeStamp' : Int) :
    Ends timeStamp' p u (if q.parsingState = .success then q.stamped timeStamp' else q) v := by
  induction h with
  | waits hwaits =>
    rw [if_neg (reading_of_waits hwaits).1]
    exact .waits hwaits
  | refused hrefuse =>
    rw [if_neg (by simp [not_reading_of_refuse hrefuse])]
    exact .refused hrefuse
  | done heat hq =>
    refine .done (eat_stamped timeStamp' heat) ?_
    split
    · rename_i hs
      exact fun hr => hr.1 hs
    · exact hq
  | step heat hq _ ih =>
    have heat' := eat_stamped timeStamp' heat
    rw [if_neg hq.1] at heat'
    exact .step heat' hq ih

theorem Ends.waits_of_reading (h : Ends timeStamp p u q v) (hq : q.Reading) : Waits q v := by
  induction h with
  | waits hwaits => exact hwaits
  | refused hrefuse => exact absurd (not_reading_of_refuse hrefuse) hq.2
  | done _ hq' => exact absurd hq hq'
  | step _ _ _ ih => exact ih hq

/-- A parser that still expects the request line has eaten nothing. -/
theorem Ends.of_requestLine (h : Ends timeStamp p u q v)
    (hs : q.parsingState = .expectRequestLine) : q = p ∧ v = u := by
  induction h with
  | waits => exact ⟨rfl, rfl⟩
  | refused hrefuse =>
    rw [not_reading_of_refuse hrefuse] at hs
    cases hs
  | done heat => exact absurd hs (eat_advances heat).1
  | step heat _ _ ih =>
    obtain ⟨rfl, _⟩ := ih hs
    exact absurd hs (eat_advances heat).1

theorem Expected.of_append (h : Expected p (u ++ w)) : Expected p u := by
  intro hs n hn
  have hline := h hs n (crlfIndex_append hn w)
  have hlen := (crlfIndex_bound hn).1
  rwa [take_append_left (by omega)] at hline

/-- Chunks that come to a parser that reads. -/
theorem feed_of_ends (chunks : List Chunk) (hb : b.Valid) (hp : p.Reading)
    (hwaits : chunks = [] → Waits p b.unread)
    (hline : Expected p (b.unread ++ stream chunks))
    (h : Ends timeStamp p (b.unread ++ stream chunks) q v) :
    ∃ p' b' rest, feed p b chunks = .ok (p', b', rest) ∧ p'.stamped 0 = q.stamped 0 ∧
      b'.unread ++ stream rest = v := by
  induction chunks generalizing p b with
  | nil =>
    simp only [stream, List.map_nil, List.flatten_nil, List.append_nil] at h
    obtain ⟨rfl, rfl⟩ := Ends.unique (.waits (hwaits rfl)) h
    exact ⟨q, b, [], rfl, rfl, by simp [stream]⟩
  | cons chunk rest ih =>
    obtain ⟨c, hc, hvalid, hunread⟩ := append_spec hb chunk.data
    have hsplit : b.unread ++ stream (chunk :: rest) = c.unread ++ stream rest := by
      simp [stream, hunread]
    rw [hsplit] at h hline
    obtain ⟨p₁, v₁, hends⟩ := exists_ends chunk.timeStamp hp hline.of_append
    obtain ⟨d, hd, hdunread, hparse⟩ :=
      parse_of_ends chunk.beyond hends hvalid rfl hline.of_append
    by_cases hp₁ : p₁.Reading
    · have hexpected : Expected p₁ (v₁ ++ stream rest) := by
        intro hs
        obtain ⟨rfl, rfl⟩ := hends.of_requestLine hs
        exact hline hs
      obtain ⟨r, x, hrest⟩ := exists_ends timeStamp hp₁ hexpected
      have hends' := hends.at_time timeStamp
      rw [if_neg hp₁.1] at hends'
      obtain ⟨rfl, rfl⟩ := h.unique ((hends'.append (stream rest)).1 hp₁ r x hrest)
      subst hdunread
      obtain ⟨p', b', rest', hfeed, hp', hb'⟩ :=
        ih hd hp₁ (fun _ => hends.waits_of_reading hp₁) hexpected hrest
      refine ⟨p', b', rest', ?_, hp', hb'⟩
      rw [← hfeed]
      simp [feed, hc, hparse, isSuccess, hp₁.1, hp₁.2, bind, Except.bind]
    · have hall := ((hends.append (stream rest)).2 hp₁).at_time timeStamp
      obtain ⟨hq, hv⟩ := h.unique hall
      refine ⟨p₁, d, rest, ?_, ?_, by rw [hdunread, hv]⟩
      · have hstop : p₁.parsingState = .fail ∨ p₁.parsingState = .success := by
          by_contra hboth
          exact hp₁ ⟨fun hs => hboth (.inr hs), fun hf => hboth (.inl hf)⟩
        cases hstop with
        | inl hf => simp [feed, hc, hparse, isSuccess, hf, bind, Except.bind, pure, Except.pure]
        | inr hs => simp [feed, hc, hparse, isSuccess, hs, bind, Except.bind, pure, Except.pure]
      · rw [← hq]
        split <;> rfl

end Lines

/-- A stream whose first line is well formed leads to the same parser, but for the time in its
request, and to the same bytes that are not consumed, in chunks as in one piece. -/
theorem feed_eq_parse (chunks : List Chunk)
    (hline : ∀ n, crlfIndex (stream chunks) = some n →
      WellFormedRequestLine ((stream chunks).take n))
    (beyond : Nat → UInt8) (timeStamp : Int) :
    ∃ p b rest c result q d, feed .new .new chunks = .ok (p, b, rest) ∧
      MutableSizeTcpBuffer.new.append (stream chunks) = .ok c ∧
      parse beyond timeStamp .new c = .ok (result, q, d) ∧
      p.stamped 0 = q.stamped 0 ∧ b.unread ++ stream rest = d.unread := by
  obtain ⟨c, hc, hvalid, hunread⟩ := append_spec valid_new (stream chunks)
  rw [unread_new, List.nil_append] at hunread
  have hexpected : Expected .new (stream chunks) := fun _ => hline
  obtain ⟨q, v, hends⟩ := exists_ends (p := .new) timeStamp ⟨nofun, nofun⟩ hexpected
  obtain ⟨d, _, hd, hparse⟩ := parse_of_ends beyond hends hvalid hunread hexpected
  obtain ⟨p, b, rest, hfeed, hp, hb⟩ := feed_of_ends (p := .new) (b := .new) chunks valid_new
    ⟨nofun, nofun⟩ (fun _ => rfl) hexpected hends
  exact ⟨p, b, rest, c, _, q, d, hfeed, hc, hparse, hp, hb.trans hd.symm⟩

/-- A request cut inside its first CRLF. -/
def cutRequest : List Chunk :=
  [⟨[71, 69, 84, 32, 47, 32, 72, 84, 84, 80, 47, 49, 46, 49, 13], 1, fun _ => 0⟩,
    ⟨[10, 13, 10], 2, fun _ => 0⟩]

theorem feed_eq_parse_cutRequest :
    ∃ p b rest c result q d, feed .new .new cutRequest = .ok (p, b, rest) ∧
      MutableSizeTcpBuffer.new.append (stream cutRequest) = .ok c ∧
      parse (fun _ => 0) 3 .new c = .ok (result, q, d) ∧
      p.stamped 0 = q.stamped 0 ∧ b.unread ++ stream rest = d.unread := by
  refine feed_eq_parse cutRequest (fun n hn => ?_) (fun _ => 0) 3
  have hn' : crlfIndex (stream cutRequest) = some 14 := by decide
  rw [hn'] at hn
  cases hn
  exact ⟨[], [71, 69, 84], [32], [47], [32], [72, 84, 84, 80, 47, 49, 46, 49], [], by decide,
    by simp [Spaces], by simp [Word], by simp [Spaces], by simp [Word], by simp [Spaces],
    by simp [Word], by simp [Spaces]⟩

end XubinhServer.HttpParser

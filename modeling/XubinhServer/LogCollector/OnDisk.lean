import XubinhServer.LogCollector.Complete
import XubinhServer.LogFile.Contents

/-! The log collector with the files that its background thread writes. -/
namespace XubinhServer.LogCollector

open Transition
open LogFile (History Call Kept)

structure OnDisk where
  collector : State
  files : History

/-- What a pass writes, call by call. -/
def Pass.pieces (p : Pass) : List (List UInt8) :=
  (if p.buffers.length > dropThresholdOfChunkBuffersToBeWritten then
      [droppedMessage (toInt (p.buffers.length - dropThresholdOfChunkBuffersToBeWritten)) p.date]
    else []) ++
  (p.buffers.take dropThresholdOfChunkBuffersToBeWritten).map contents

/-- What the background thread writes before it returns. -/
def State.closing (s : State) : List (List UInt8) :=
  match s.collector.currentChunkBufferPtr with
  | none => []
  | some current => if current.length ≠ 0 then [current.data] else []

section Model

variable (datetimeString : Int → List UInt8)

/-- The pieces are written one after the other, and the file is flushed. -/
inductive Writes : List (List UInt8) → History → History → Prop
  | flush {h : History} (time : Int) (hnow : h.now ≤ time) :
      Writes [] h { h with stored := h.stored.flushToDisk time, now := time }
  | piece {data : List UInt8} {rest : List (List UInt8)} {h h' h'' : History}
      (hcall : Call datetimeString h h')
      (hdata : h'.records = h.records ++ [(h.stored.name, data)]) (hrest : Writes rest h' h'') :
      Writes (data :: rest) h h''

/-- One step of a thread. The background thread writes in its passes and when it returns. -/
inductive OnDisk.Step : OnDisk → OnDisk → Prop
  | quiet {s s' : State} {h : History} (hstep : LogCollector.Step s s')
      (hpasses : s'.passes = s.passes)
      (hphase : ∀ entries, s'.background.phase = .returned entries →
        s.background.phase = .returned entries) : OnDisk.Step ⟨s, h⟩ ⟨s', h⟩
  | write {s : State} {h h' : History} (date : String) (hs : s.fault = none)
      (hphase : s.background.phase = .writing)
      (hwrites : Writes datetimeString (Pass.pieces ⟨s.background.toBeWritten, date⟩) h h') :
      OnDisk.Step ⟨s, h⟩ ⟨s.write date, h'⟩
  | close {s s' : State} {h h' : History} {entries : List (List UInt8)}
      (hstep : LogCollector.Step s s')
      (hopen : ∀ entries, s.background.phase ≠ .returned entries)
      (hreturned : s'.background.phase = .returned entries)
      (hwrites : Writes datetimeString s'.closing h h') : OnDisk.Step ⟨s, h⟩ ⟨s', h'⟩

end Model

variable {datetimeString : Int → List UInt8} {baseName : List UInt8}
  {disk : List UInt8 → List UInt8} {h h' : History} {s s' : State} {o o' : OnDisk}
  {pieces : List (List UInt8)} {entries : List (List UInt8)}

theorem flatten_pieces (p : Pass) : p.pieces.flatten = p.output := by
  rw [Pass.pieces, Pass.output, List.flatten_append, ← List.flatMap_def]
  split <;> simp

theorem flatten_flatMap_pieces (passes : List Pass) :
    (passes.flatMap Pass.pieces).flatten = passes.flatMap Pass.output := by
  induction passes with
  | nil => rfl
  | cons p passes ih =>
    rw [List.flatMap_cons, List.flatMap_cons, List.flatten_append, flatten_pieces, ih]

/-- Behind the writes all is on the disk. -/
theorem Writes.spec (hwrites : Writes datetimeString pieces h h')
    (hkept : Kept datetimeString baseName disk h) :
    Kept datetimeString baseName disk h' ∧
      h'.records.map (·.2) = h.records.map (·.2) ++ pieces ∧ h'.stored.buffered = [] := by
  induction hwrites with
  | flush time hnow =>
    refine ⟨hkept.call (.flush time hnow), (List.append_nil _).symm, ?_⟩
    exact List.drop_length
  | piece hcall hdata hrest ih =>
    obtain ⟨hkept', hrecords, hflushed⟩ := ih (hkept.call hcall)
    refine ⟨hkept', ?_, hflushed⟩
    rw [hrecords, hdata, List.map_append, List.append_assoc]
    rfl

/-- A background thread that has returned does nothing any more. -/
theorem background_of_returned (hstep : Step s s')
    (hreturned : s.background.phase = .returned entries) : s'.background = s.background := by
  cases hstep with
  | take entry hs =>
    rw [State.take]
    split <;> rfl
  | flush hs => rfl
  | stop hs => rfl
  | enter hs hphase =>
    rw [hphase] at hreturned
    cases hreturned
  | wake hs hphase =>
    rw [hphase] at hreturned
    cases hreturned
  | write date hs hphase =>
    rw [hphase] at hreturned
    cases hreturned

theorem logFile_of_open {e : Entries} (hsound : Sound s e)
    (hopen : ∀ entries, s.background.phase ≠ .returned entries) :
    s.background.logFile = s.passes.flatMap Pass.output := by
  have hready := hsound.ready
  rw [Background.Ready] at hready
  split at hready
  · exact hready.2.2.2
  · exact hready.2.2.2
  · exact hready.2.2.2
  · rename_i entries hphase
    exact absurd hphase (hopen entries)

theorem phase_of_swapOut {c c' : LogCollector} {b b' : Background}
    (hswap : swapOut c b = .ok (c', b')) : b'.phase = .writing := by
  cases hspare : c.spareChunkBufferPtr with
  | none =>
    rw [swapOut_eq hspare] at hswap
    cases hswap
    rfl
  | some spare =>
    simp [swapOut, hspare, bind, Except.bind, throw, throwThe, MonadExceptOf.throw] at hswap

theorem criticalSection_returned {entriesTaken : List (List UInt8)} {c c' : LogCollector}
    {b b' : Background} (hsection : criticalSection entriesTaken c b = .ok (c', b'))
    (hreturned : b'.phase = .returned entries) :
    ∃ current, c'.currentChunkBufferPtr = some current ∧
      b'.logFile = if current.length ≠ 0 then b.logFile ++ current.data else b.logFile := by
  have hnot : ∀ c, swapOut c b ≠ .ok (c', b') := by
    intro c hswap
    rw [phase_of_swapOut hswap] at hreturned
    cases hreturned
  rw [criticalSection] at hsection
  split at hsection
  · split at hsection
    · cases hcurrent : c.currentChunkBufferPtr with
      | none =>
        rw [hcurrent] at hsection
        cases hsection
      | some current =>
        rw [hcurrent] at hsection
        cases hsection
        exact ⟨current, hcurrent, rfl⟩
    · split at hsection
      · cases hspare : c.spareChunkBufferPtr with
        | none =>
          rw [hspare] at hsection
          cases hsection
        | some spare =>
          rw [hspare] at hsection
          let flushing : LogCollector := { c with
            needFlush := false
            fulledChunkBuffers := c.fulledChunkBuffers ++ [some (spare.append (bytes "flush\n"))]
            spareChunkBufferPtr := none }
          exact absurd hsection (hnot flushing)
      · cases hsection
        cases hreturned
  · exact absurd hsection (hnot _)

theorem collect_returned (hopen : ∀ entries, s.background.phase ≠ .returned entries)
    (hreturned : s.collect.background.phase = .returned entries) :
    s.collect.passes = s.passes ∧
      s.collect.background.logFile = s.background.logFile ++ s.collect.closing.flatten := by
  cases hsection : criticalSection s.entriesTaken s.collector s.background with
  | error fault =>
    have hcollect : s.collect = { s with fault := some fault } := by rw [State.collect, hsection]
    rw [hcollect] at hreturned
    exact absurd hreturned (hopen entries)
  | ok result =>
    have hcollect : s.collect = { s with collector := result.1, background := result.2 } := by
      rw [State.collect, hsection]
    rw [hcollect] at hreturned ⊢
    obtain ⟨current, hcurrent, hlog⟩ := criticalSection_returned hsection hreturned
    refine ⟨rfl, ?_⟩
    rw [State.closing]
    dsimp only
    rw [hcurrent, hlog]
    dsimp only
    split <;> simp

theorem write_eq {e : Entries} (hsound : Sound s e) (hphase : s.background.phase = .writing)
    (date : String) : (s.write date).passes = s.passes ++ [⟨s.background.toBeWritten, date⟩] ∧
      (s.write date).background.phase = .collecting := by
  obtain ⟨hlength, hforCurrent, hforSpare, _⟩ := hsound.ready_of_writing hphase
  rw [State.write, writePass_eq date hlength hsound.toBeWritten hforCurrent hforSpare]
  exact ⟨rfl, rfl⟩

/-- The last bytes are those of the current buffer. -/
theorem closing_of_step {e : Entries} (hsound : Sound s e) (hstep : Step s s')
    (hopen : ∀ entries, s.background.phase ≠ .returned entries)
    (hreturned : s'.background.phase = .returned entries) :
    s'.passes = s.passes ∧
      s'.background.logFile = s.background.logFile ++ s'.closing.flatten := by
  cases hstep with
  | take entry hs =>
    have hsame : (s.take entry).background = s.background := by
      rw [State.take]
      split <;> rfl
    rw [hsame] at hreturned
    exact absurd hreturned (hopen entries)
  | flush hs => exact absurd hreturned (hopen entries)
  | stop hs => exact absurd hreturned (hopen entries)
  | enter hs hphase =>
    by_cases hempty : s.collector.fulledChunkBuffers.isEmpty
    · rw [State.enter, if_pos hempty] at hreturned
      cases hreturned
    · rw [State.enter, if_neg hempty] at hreturned ⊢
      exact collect_returned hopen hreturned
  | wake hs hphase => exact collect_returned hopen hreturned
  | write date hs hphase =>
    rw [(write_eq hsound hphase date).2] at hreturned
    cases hreturned

/-- What the files have is what the background thread has written. -/
structure OnDisk.Written (datetimeString : Int → List UInt8) (baseName : List UInt8)
    (disk : List UInt8 → List UInt8) (o : OnDisk) : Prop where
  reached : Reaches LogCollector.Step State.initial o.collector
  kept : Kept datetimeString baseName disk o.files
  flushed : o.files.stored.buffered = []
  pieces : ∃ last, o.files.records.map (·.2) = o.collector.passes.flatMap Pass.pieces ++ last ∧
    o.collector.background.logFile = o.collector.passes.flatMap Pass.output ++ last.flatten ∧
    last.length ≤ 1 ∧
    ((∀ entries, o.collector.background.phase ≠ .returned entries) → last = [])

theorem length_closing_le (s : State) : s.closing.length ≤ 1 := by
  rw [State.closing]
  split
  · exact Nat.zero_le 1
  · split <;> simp

theorem OnDisk.Written.step (hw : o.Written datetimeString baseName disk)
    (hstep : OnDisk.Step datetimeString o o') : o'.Written datetimeString baseName disk := by
  obtain ⟨hreached, hkept, hflushed, last, hpieces, hlog, hlength, hlast⟩ := hw
  obtain ⟨e, hsound⟩ := exists_sound hreached
  cases hstep with
  | @quiet s s' h hstep hpasses hphase =>
    have hreached' := hreached.tail hstep
    obtain ⟨e', hsound'⟩ := exists_sound hreached'
    refine ⟨hreached', hkept, hflushed, last, by rw [hpasses]; exact hpieces, ?_, hlength, ?_⟩
    · by_cases hreturned : ∃ entries, s.background.phase = .returned entries
      · obtain ⟨entries, hreturned⟩ := hreturned
        rw [background_of_returned hstep hreturned, hpasses]
        exact hlog
      · have hopen : ∀ entries, s.background.phase ≠ .returned entries :=
          fun entries heq => hreturned ⟨entries, heq⟩
        have hopen' : ∀ entries, s'.background.phase ≠ .returned entries :=
          fun entries heq => hopen entries (hphase entries heq)
        rw [hlast hopen, logFile_of_open hsound' hopen']
        simp
    · intro hopen'
      refine hlast fun entries heq => ?_
      have hsame := background_of_returned hstep heq
      exact hopen' entries (hsame ▸ heq)
  | @write s h h' date hs hphase hwrites =>
    obtain ⟨hkept', hrecords, hflushed'⟩ := hwrites.spec hkept
    have hreached' := hreached.tail (.write date hs hphase)
    obtain ⟨e', hsound'⟩ := exists_sound hreached'
    obtain ⟨hpasses, hcollecting⟩ := write_eq hsound hphase date
    have hopen : ∀ entries, s.background.phase ≠ .returned entries := by
      intro entries heq
      rw [hphase] at heq
      cases heq
    have hopen' : ∀ entries, (s.write date).background.phase ≠ .returned entries := by
      intro entries heq
      rw [hcollecting] at heq
      cases heq
    refine ⟨hreached', hkept', hflushed', [], ?_, ?_, Nat.zero_le 1, fun _ => rfl⟩
    · rw [hrecords, hpieces, hlast hopen, hpasses]
      simp
    · rw [logFile_of_open hsound' hopen']
      simp
  | @close s s' h h' entries hstep hopen hreturned hwrites =>
    obtain ⟨hkept', hrecords, hflushed'⟩ := hwrites.spec hkept
    obtain ⟨hpasses, hclosing⟩ := closing_of_step hsound hstep hopen hreturned
    refine ⟨hreached.tail hstep, hkept', hflushed', s'.closing, ?_, ?_, length_closing_le s',
      fun hnot => absurd hreturned (hnot entries)⟩
    · rw [hrecords, hpieces, hlast hopen, hpasses]
      simp
    · rw [hclosing, hlog, hlast hopen, hpasses]
      simp

/-! ### Lines -/

theorem Lines.eq_nil {data : List UInt8} (hlines : Lines data entries) (hdata : data = [])
    (hentries : ∀ entry ∈ entries, entry ≠ []) : entries = [] := by
  cases hlines with
  | nil => rfl
  | entry hlines entry =>
    have hnil := (List.append_eq_nil_iff.mp hdata).2
    exact absurd hnil (hentries entry (List.mem_append_right _ (List.mem_singleton_self _)))
  | flush hlines =>
    have hnil := (List.append_eq_nil_iff.mp hdata).2
    exact absurd hnil (by decide)

theorem Lines.flatMap {β : Type} {parts : List β} {data : β → List UInt8}
    {entriesOf : β → List (List UInt8)} (hlines : ∀ p ∈ parts, Lines (data p) (entriesOf p)) :
    Lines (parts.flatMap data) (parts.flatMap entriesOf) := by
  induction parts with
  | nil => exact .nil
  | cons p parts ih =>
    rw [List.flatMap_cons, List.flatMap_cons]
    exact (hlines p List.mem_cons_self).append
      (ih fun q hq => hlines q (List.mem_cons_of_mem p hq))

end XubinhServer.LogCollector

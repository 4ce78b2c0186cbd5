import Mathlib.Data.List.Chain
import XubinhServer.LogFile

/-! When the formal checks of a log file flush it or switch it. They measure the time since the last
check, not the time since the last flush. -/
namespace XubinhServer.LogFile

open Transition

/-- What a check should do: it flushes or switches a file that has not been for more than an
interval, and it switches in a later interval than the one in which the last check was over. -/
structure Prompt (check previous : Check) : Prop where
  flushes : check.started - check.flushedAt > FLUSH_INTERVAL_IN_SECONDS → check.action ≠ .nothing
  switches : switchInterval previous.finished < switchInterval check.started →
    check.action = .switch

/-- If the file has not been flushed for more than an interval, there has been no check either, or
none on this day. -/
def Spaced (check previous : Check) : Prop :=
  check.started - check.flushedAt > FLUSH_INTERVAL_IN_SECONDS →
    check.started - previous.finished > FLUSH_INTERVAL_IN_SECONDS ∨
      switchInterval check.started ≠ switchInterval previous.finished

/-- What the time of the last check makes of a check. -/
def actionAt (timeOfLastMajorCheck time : Int) : Action :=
  if switchInterval time ≠ switchInterval timeOfLastMajorCheck then .switch
  else if time - timeOfLastMajorCheck > FLUSH_INTERVAL_IN_SECONDS then .flush
  else .nothing

/-- Each check goes by the end of the one before it, which is what the file remembers. -/
structure Remembered (s : State) : Prop where
  actions : s.checks.IsChain fun check previous =>
    check.action = actionAt previous.finished check.started
  stamp : ∀ check ∈ s.checks.head?, s.file.timeOfLastMajorCheck = check.finished

variable {datetimeString : Int → List UInt8} {f f' : LogFile} {s t : State} {clock : Clock}
  {written : Nat} {action : Action}

/-- What a formal check does follows from the time of the last one alone. -/
theorem doFormalCheck_spec (f : LogFile) (datetimeString : Int → List UInt8) (clock : Clock) :
    (f.doFormalCheck datetimeString clock).2 = actionAt f.timeOfLastMajorCheck clock.check ∧
      (f.doFormalCheck datetimeString clock).1.timeOfLastMajorCheck =
        finished clock (actionAt f.timeOfLastMajorCheck clock.check) ∧
      (f.doFormalCheck datetimeString clock).1.physicalFile.flushedAt =
        (if actionAt f.timeOfLastMajorCheck clock.check = .nothing then f.physicalFile.flushedAt
        else clock.io) ∧
      (f.doFormalCheck datetimeString clock).1.physicalFile.totalNumberOfBytesWritten ≤
        f.physicalFile.totalNumberOfBytesWritten := by
  have hinterval : f.isInANewSwitchInterval clock.check = true ↔
      switchInterval clock.check ≠ switchInterval f.timeOfLastMajorCheck := decide_eq_true_iff
  rw [doFormalCheck, actionAt]
  by_cases hswitch : switchInterval clock.check ≠ switchInterval f.timeOfLastMajorCheck
  · rw [if_pos (hinterval.mpr hswitch), if_pos hswitch]
    exact ⟨rfl, rfl, rfl, Nat.zero_le _⟩
  · rw [if_neg (mt hinterval.mp hswitch), if_neg hswitch]
    split
    · exact ⟨rfl, rfl, rfl, Nat.le_refl _⟩
    · exact ⟨rfl, rfl, rfl, Nat.le_refl _⟩

/-- A write either makes no formal check, and leaves the time of the last one, or it makes one. -/
theorem write_spec (f : LogFile) (datetimeString : Int → List UInt8) (written : Nat)
    (clock : Clock) :
    (∃ f', f.writeToUserSpaceMemory datetimeString written clock = (f', none) ∧
      f'.timeOfLastMajorCheck = f.timeOfLastMajorCheck) ∨
    ∃ f', f.writeToUserSpaceMemory datetimeString written clock =
        (f', some (actionAt f.timeOfLastMajorCheck clock.check)) ∧
      f'.timeOfLastMajorCheck =
        finished clock (actionAt f.timeOfLastMajorCheck clock.check) := by
  rw [writeToUserSpaceMemory, doQuickCheck]
  split
  · exact .inl ⟨_, rfl, rfl⟩
  · split
    · exact .inl ⟨_, rfl, rfl⟩
    · right
      let counted : LogFile := { f with
        physicalFile := { f.physicalFile with
          totalNumberOfBytesWritten := f.physicalFile.totalNumberOfBytesWritten + written }
        numberOfNormalChecks := f.numberOfNormalChecks + 1 }
      obtain ⟨haction, hstamp, _⟩ := counted.doFormalCheck_spec datetimeString clock
      exact ⟨_, congrArg (fun action => (_, some action)) haction, hstamp⟩

theorem remembered_step (h : Remembered s) (hstep : Step datetimeString s t) : Remembered t := by
  obtain ⟨written, clock, _⟩ := hstep
  rw [State.write]
  cases s.file.write_spec datetimeString written clock with
  | inl hquick =>
    obtain ⟨f', hwrite, hstamp⟩ := hquick
    rw [hwrite]
    exact ⟨h.actions, fun check hcheck => hstamp.trans (h.stamp check hcheck)⟩
  | inr hformal =>
    obtain ⟨f', hwrite, hstamp⟩ := hformal
    rw [hwrite]
    constructor
    · refine List.isChain_cons.mpr ⟨fun previous hprevious => ?_, h.actions⟩
      rw [h.stamp previous hprevious]
    · intro check hcheck
      cases hcheck
      exact hstamp

theorem prompt_iff_spaced {check previous : Check}
    (haction : check.action = actionAt previous.finished check.started) :
    Prompt check previous ↔ Spaced check previous := by
  rw [actionAt] at haction
  constructor
  · intro hprompt hlate
    by_contra hneither
    rw [not_or, not_not] at hneither
    rw [if_neg (not_not.mpr hneither.2), if_neg hneither.1] at haction
    exact hprompt.flushes hlate haction
  · intro hspaced
    constructor
    · intro hlate
      by_cases hswitch : switchInterval check.started ≠ switchInterval previous.finished
      · rw [haction, if_pos hswitch]
        decide
      · have hflush := (hspaced hlate).resolve_right hswitch
        rw [haction, if_neg hswitch, if_pos hflush]
        decide
    · intro hlater
      rw [haction, if_pos (Ne.symm (Int.ne_of_lt hlater))]

theorem isChain_prompt_iff {checks : List Check} (hactions : checks.IsChain fun check previous =>
      check.action = actionAt previous.finished check.started) :
    checks.IsChain Prompt ↔ checks.IsChain Spaced := by
  induction checks with
  | nil => exact iff_of_true .nil .nil
  | cons check checks ih =>
    rw [List.isChain_cons] at hactions
    rw [List.isChain_cons, List.isChain_cons, ih hactions.2]
    exact and_congr_left fun _ => forall₂_congr fun previous hprevious =>
      prompt_iff_spaced (hactions.1 previous hprevious)

/-- In each run on a log file, the formal checks behind the first one are prompt if and only if they
are spaced. -/
theorem prompt_iff (file : LogFile) (time : Int)
    (hreach : Reaches (Step datetimeString) ⟨file, [], time⟩ s) :
    s.checks.IsChain Prompt ↔ s.checks.IsChain Spaced := by
  have hnew : Remembered ⟨file, [], time⟩ := ⟨.nil, by simp⟩
  have hremembered : Remembered s := hreach.invariant hnew fun _ _ => remembered_step
  exact isChain_prompt_iff hremembered.actions

/-- A call in which the clock does not go on. -/
def Clock.at (time : Int) : Clock := ⟨time, time, time, Int.le_refl time, Int.le_refl time⟩

/-- Nothing has been counted, and there is room left in the file. -/
structure Fresh (s : State) : Prop where
  counted : s.file.numberOfNormalChecks = 0
  room : s.file.physicalFile.totalNumberOfBytesWritten ≤ PHYSICAL_FILE_SIZE_THRESHOLD

def State.counting (s : State) (n : Nat) : State :=
  { s with file := { s.file with numberOfNormalChecks := n } }

theorem write_counting (datetimeString : Int → List UInt8) (h : Fresh s) {n : Nat}
    (hn : n < MAJOR_CHECK_FREQUENCY) :
    (s.counting n).write datetimeString 0 (Clock.at s.now) = s.counting (n + 1) := by
  have hroom := Nat.not_lt.mpr h.room
  rw [State.write, writeToUserSpaceMemory, doQuickCheck]
  simp only [State.counting, Nat.add_zero, gt_iff_lt, hroom, if_false, Nat.succ_le_of_lt hn,
    if_true]
  rfl

theorem reaches_counting (h : Fresh s) {n : Nat} (hn : n ≤ MAJOR_CHECK_FREQUENCY) :
    Reaches (Step datetimeString) s (s.counting n) := by
  induction n with
  | zero =>
    have hsame : s.counting 0 = s := by
      rw [State.counting, ← h.counted]
    rw [hsame]
  | succ n ih =>
    rw [← write_counting datetimeString h hn]
    exact (ih (Nat.le_of_succ_le hn)).tail (.write 0 (Clock.at s.now) (Int.le_refl _))

/-- The next formal check can be at any later time. -/
theorem exists_check (datetimeString : Int → List UInt8) (h : Fresh s) {time : Int}
    (htime : s.now ≤ time) :
    ∃ t, Reaches (Step datetimeString) s t ∧ Fresh t ∧ t.now = time ∧
      t.file.timeOfLastMajorCheck = time ∧
      t.file.physicalFile.flushedAt = (if actionAt s.file.timeOfLastMajorCheck time = .nothing
        then s.file.physicalFile.flushedAt else time) ∧
      t.checks = ⟨time, time, s.file.physicalFile.flushedAt,
        actionAt s.file.timeOfLastMajorCheck time⟩ :: s.checks := by
  let counted : LogFile := { s.file with numberOfNormalChecks := MAJOR_CHECK_FREQUENCY + 1 }
  obtain ⟨haction, hstamp, hflushed, hbytes⟩ :=
    counted.doFormalCheck_spec datetimeString (Clock.at time)
  have hroom := Nat.not_lt.mpr h.room
  have hwrite : (s.counting MAJOR_CHECK_FREQUENCY).file.writeToUserSpaceMemory datetimeString 0
      (Clock.at time) = ({ (counted.doFormalCheck datetimeString (Clock.at time)).1 with
        numberOfNormalChecks := 0 }, some (actionAt s.file.timeOfLastMajorCheck time)) := by
    rw [writeToUserSpaceMemory, doQuickCheck]
    simp only [State.counting, Nat.add_zero, gt_iff_lt, hroom, if_false,
      Nat.not_succ_le_self, Prod.mk.injEq, Option.some.injEq]
    exact ⟨rfl, haction⟩
  have hfinished : finished (Clock.at time) (actionAt s.file.timeOfLastMajorCheck time) = time :=
    ite_self _
  have hcount : Reaches (Step datetimeString) s (s.counting MAJOR_CHECK_FREQUENCY) :=
    reaches_counting h (Nat.le_refl _)
  refine ⟨_, hcount.tail (.write 0 (Clock.at time) htime), ?_⟩
  rw [State.write, hwrite]
  refine ⟨⟨rfl, Nat.le_trans hbytes h.room⟩, rfl, hstamp.trans hfinished, hflushed, ?_⟩
  exact congrArg (fun f => Check.mk time f _ _ :: s.checks) hfinished

/-- A file that has just been opened, at the epoch. -/
def exampleFile : LogFile :=
  ⟨bytes "server", openPhysicalFile (fun _ => []) (bytes "server") 0, 0, 0⟩

theorem fresh_example : Fresh ⟨exampleFile, [], 0⟩ := ⟨rfl, Nat.zero_le _⟩

theorem prompt_iff_example : ∃ s, Reaches (Step fun _ => []) ⟨exampleFile, [], 0⟩ s ∧
    s.checks.length = 2 ∧ s.checks.IsChain Prompt := by
  obtain ⟨s, hs, hfresh, hnow, hstamp, hflushed, hchecks⟩ :=
    exists_check (fun _ => []) fresh_example (by decide : (0 : Int) ≤ 100000)
  obtain ⟨t, ht, _, _, _, _, hchecks'⟩ :=
    exists_check (fun _ => []) hfresh (by rw [hnow]; decide : s.now ≤ 100010)
  have hreach := Relation.ReflTransGen.trans hs ht
  refine ⟨t, hreach, ?_, (prompt_iff exampleFile 0 hreach).mpr ?_⟩
  · rw [hchecks', hchecks]
    rfl
  · rw [hchecks', hchecks, hstamp]
    refine List.isChain_cons.mpr ⟨fun previous hprevious => ?_, .singleton _⟩
    cases hprevious
    exact fun _ => .inl (by decide : (100010 : Int) - 100000 > FLUSH_INTERVAL_IN_SECONDS)

/-- With a check each three seconds a file is not flushed. -/
theorem not_prompt : ¬∀ (datetimeString : Int → List UInt8) (file : LogFile) (time : Int)
    (s : State), Reaches (Step datetimeString) ⟨file, [], time⟩ s → s.checks.IsChain Prompt := by
  intro hprompt
  obtain ⟨s, hs, hfresh, hnow, hstamp, hflushed, _⟩ :=
    exists_check (fun _ => []) fresh_example (by decide : (0 : Int) ≤ 100000)
  obtain ⟨t, ht, hfresh', hnow', hstamp', hflushed', hchecks'⟩ :=
    exists_check (fun _ => []) hfresh (by rw [hnow]; decide : s.now ≤ 100003)
  obtain ⟨u, hu, _, _, _, _, hchecks⟩ :=
    exists_check (fun _ => []) hfresh' (by rw [hnow']; decide : t.now ≤ 100006)
  have hfirst : s.file.physicalFile.flushedAt = 100000 := hflushed
  have hsecond : t.file.physicalFile.flushedAt = 100000 := by
    rw [hflushed', hstamp, hfirst]
    decide
  have hchain := hprompt _ _ _ u ((hs.trans ht).trans hu)
  rw [hchecks, hchecks', hstamp', hsecond] at hchain
  have hlast := (List.isChain_cons.mp hchain).1 _ rfl
  exact hlast.flushes (by decide : (100006 : Int) - 100000 > FLUSH_INTERVAL_IN_SECONDS)
    (by decide : actionAt 100003 100006 = .nothing)

end XubinhServer.LogFile

import Mathlib.Data.List.Infix
import XubinhServer.Lib.Grouped
import XubinhServer.LogFile

/-! What a log file leaves on the disk. Each physical file is open in append mode and writes through
the buffer of its `FILE`, which `fwrite` may write out in part at any time. -/
namespace XubinhServer.LogFile

open Transition
open Function (update)

/-- The log file, the buffer of the `FILE` of its physical file, and the files on the disk. -/
structure Stored where
  file : LogFile
  buffered : List UInt8
  disk : List UInt8 → List UInt8

namespace Stored

/-- The name of the physical file. -/
def name (s : Stored) : List UInt8 := s.file.physicalFile.name

/-- The `FILE` writes `count` bytes of its buffer out. -/
def writeOut (s : Stored) (count : Nat) : Stored := { s with
  buffered := s.buffered.drop count
  disk := update s.disk s.name (s.disk s.name ++ s.buffered.take count) }

/-- `data` is what `fwrite` takes; it writes `count` bytes of the buffer out. -/
def fwrite (s : Stored) (data : List UInt8) (count : Nat) : Stored :=
  { s with
    buffered := s.buffered ++ data
    file.physicalFile := { s.file.physicalFile with
      totalNumberOfBytesWritten :=
        s.file.physicalFile.totalNumberOfBytesWritten + data.length } }.writeOut count

def flushToDisk (s : Stored) (time : Int) : Stored :=
  { s.writeOut s.buffered.length with file := s.file.flushToDisk time }

section

variable (datetimeString : Int → List UInt8)

/-- The new file is opened before the old one is closed. -/
def switchToANewUnderlyingPhysicalFile (s : Stored) (time : Int) : Stored :=
  { s.writeOut s.buffered.length with
    file := s.file.switchToANewUnderlyingPhysicalFile datetimeString time }

def doFormalCheck (s : Stored) (clock : Clock) : Stored :=
  if s.file.isInANewSwitchInterval clock.check then
    { s.switchToANewUnderlyingPhysicalFile datetimeString clock.io with
      file.timeOfLastMajorCheck := clock.refetch }
  else if clock.check - s.file.timeOfLastMajorCheck > FLUSH_INTERVAL_IN_SECONDS then
    { s.flushToDisk clock.io with file.timeOfLastMajorCheck := clock.refetch }
  else { s with file.timeOfLastMajorCheck := clock.check }

def doQuickCheck (s : Stored) (clock : Clock) : Stored :=
  let s := { s with file.numberOfNormalChecks := s.file.numberOfNormalChecks + 1 }
  if s.file.physicalFile.totalNumberOfBytesWritten > PHYSICAL_FILE_SIZE_THRESHOLD then
    { s.switchToANewUnderlyingPhysicalFile datetimeString clock.io with
      file.numberOfNormalChecks := 0 }
  else if s.file.numberOfNormalChecks ≤ MAJOR_CHECK_FREQUENCY then s
  else { s.doFormalCheck datetimeString clock with file.numberOfNormalChecks := 0 }

def writeToUserSpaceMemory (s : Stored) (data : List UInt8) (count : Nat) (clock : Clock) :
    Stored :=
  (s.fwrite data count).doQuickCheck datetimeString clock

/-- Apart from the contents, a check is the one of the log file. -/
theorem file_doFormalCheck (s : Stored) (clock : Clock) :
    (s.doFormalCheck datetimeString clock).file =
      (s.file.doFormalCheck datetimeString clock).1 := by
  rw [doFormalCheck, LogFile.doFormalCheck]
  by_cases hswitch : s.file.isInANewSwitchInterval clock.check
  · rw [if_pos hswitch, if_pos hswitch]
    rfl
  · rw [if_neg hswitch, if_neg hswitch]
    by_cases hflush : clock.check - s.file.timeOfLastMajorCheck > FLUSH_INTERVAL_IN_SECONDS
    · rw [if_pos hflush, if_pos hflush]
      rfl
    · rw [if_neg hflush, if_neg hflush]

theorem file_doQuickCheck (s : Stored) (clock : Clock) :
    (s.doQuickCheck datetimeString clock).file =
      (s.file.doQuickCheck datetimeString clock).1 := by
  simp only [doQuickCheck, LogFile.doQuickCheck]
  by_cases hsize : s.file.physicalFile.totalNumberOfBytesWritten > PHYSICAL_FILE_SIZE_THRESHOLD
  · rw [if_pos hsize, if_pos hsize]
    rfl
  · rw [if_neg hsize, if_neg hsize]
    by_cases hcount : s.file.numberOfNormalChecks + 1 ≤ MAJOR_CHECK_FREQUENCY
    · rw [if_pos hcount, if_pos hcount]
    · rw [if_neg hcount, if_neg hcount]
      exact congrArg (fun f : LogFile => { f with numberOfNormalChecks := 0 })
        (file_doFormalCheck datetimeString _ clock)

/-- Apart from the contents, a write is the one of the log file. -/
theorem file_writeToUserSpaceMemory (s : Stored) (data : List UInt8) (count : Nat)
    (clock : Clock) : (s.writeToUserSpaceMemory datetimeString data count clock).file =
      (s.file.writeToUserSpaceMemory datetimeString data.length clock).1 :=
  file_doQuickCheck datetimeString (s.fwrite data count) clock

end

end Stored

namespace Stored

/-- What is on the disk under this name, with what is still in the buffer. -/
def contents (s : Stored) (n : List UInt8) : List UInt8 :=
  s.disk n ++ if n = s.name then s.buffered else []

theorem contents_writeOut (s : Stored) (count : Nat) :
    (s.writeOut count).contents = s.contents := by
  funext n
  by_cases hn : n = s.file.physicalFile.name
  · subst hn
    simp [contents, writeOut, name]
  · simp [contents, writeOut, name, hn]

/-- Once all of the buffer is written out, everything is on the disk. -/
theorem disk_writeOut (s : Stored) : (s.writeOut s.buffered.length).disk = s.contents := by
  have hall := s.contents_writeOut s.buffered.length
  have hnil : (s.writeOut s.buffered.length).buffered = [] := by
    rw [writeOut, List.drop_length]
  rw [← hall]
  funext n
  rw [contents, hnil, ite_self, List.append_nil]

theorem contents_fwrite (s : Stored) (data : List UInt8) (count : Nat) (n : List UInt8) :
    (s.fwrite data count).contents n = s.contents n ++ if s.name = n then data else [] := by
  rw [fwrite, contents_writeOut]
  by_cases hn : s.file.physicalFile.name = n
  · simp [contents, name, hn]
  · simp [contents, name, hn, Ne.symm hn]

/-- What a check leaves alone, and how it may change the physical file. -/
structure Checked (datetimeString : Int → List UInt8) (clock : Clock) (s t : Stored) : Prop where
  contents : t.contents = s.contents
  baseName : t.file.baseName = s.file.baseName
  name : t.name = s.name ∨
    t.name = getNameForANewUnderlyingPhysicalFile datetimeString s.file.baseName clock.io
  total : t.file.physicalFile.totalNumberOfBytesWritten ≤
    s.file.physicalFile.totalNumberOfBytesWritten

variable (datetimeString : Int → List UInt8) (s : Stored) (clock : Clock)

theorem checked_switch : Checked datetimeString clock s
    (s.switchToANewUnderlyingPhysicalFile datetimeString clock.io) where
  contents := by
    have hnil : (s.switchToANewUnderlyingPhysicalFile datetimeString clock.io).buffered = [] := by
      rw [switchToANewUnderlyingPhysicalFile, writeOut, List.drop_length]
    rw [← s.disk_writeOut]
    funext n
    rw [Stored.contents, hnil, ite_self, List.append_nil]
    rfl
  baseName := rfl
  name := .inr rfl
  total := Nat.zero_le _

theorem checked_flush (time : Int) : Checked datetimeString clock s (s.flushToDisk time) where
  contents := s.contents_writeOut s.buffered.length
  baseName := rfl
  name := .inl rfl
  total := Nat.le_refl _

theorem checked_formalCheck : Checked datetimeString clock s
    (s.doFormalCheck datetimeString clock) := by
  rw [doFormalCheck]
  split
  · obtain ⟨hcontents, hbase, hname, htotal⟩ := s.checked_switch datetimeString clock
    exact ⟨hcontents, hbase, hname, htotal⟩
  · split
    · obtain ⟨hcontents, hbase, hname, htotal⟩ := s.checked_flush datetimeString clock clock.io
      exact ⟨hcontents, hbase, hname, htotal⟩
    · exact ⟨rfl, rfl, .inl rfl, Nat.le_refl _⟩

/-- Behind a quick check there is room in the physical file. -/
theorem checked_quickCheck : Checked datetimeString clock s
    (s.doQuickCheck datetimeString clock) ∧
    (s.doQuickCheck datetimeString clock).file.physicalFile.totalNumberOfBytesWritten ≤
      PHYSICAL_FILE_SIZE_THRESHOLD := by
  let counted : Stored := { s with file.numberOfNormalChecks := s.file.numberOfNormalChecks + 1 }
  simp only [doQuickCheck]
  split
  · obtain ⟨hcontents, hbase, hname, htotal⟩ := counted.checked_switch datetimeString clock
    exact ⟨⟨hcontents, hbase, hname, htotal⟩, Nat.zero_le _⟩
  · rename_i hroom
    split
    · exact ⟨⟨rfl, rfl, .inl rfl, Nat.le_refl _⟩, Nat.le_of_not_lt hroom⟩
    · obtain ⟨hcontents, hbase, hname, htotal⟩ := counted.checked_formalCheck datetimeString clock
      exact ⟨⟨hcontents, hbase, hname, htotal⟩, Nat.le_trans htotal (Nat.le_of_not_lt hroom)⟩

end Stored

/-! ### The history of the files -/

/-- The log file, the time, and what has happened: when the physical files were opened that have a
name of their own, and what has been written under which name. -/
structure History where
  stored : Stored
  now : Int
  openedAt : List Int
  records : List (List UInt8 × List UInt8)

/-- The names of the physical files, in the order in which they have been opened. -/
def History.names (datetimeString : Int → List UInt8) (baseName : List UInt8) (h : History) :
    List (List UInt8) :=
  h.openedAt.map (getNameForANewUnderlyingPhysicalFile datetimeString baseName)

/-- The physical file that a call leaves is another one if it has another name. -/
def openedBehind (before after : Stored) (openedAt : List Int) (time : Int) : List Int :=
  if after.name = before.name then openedAt else openedAt ++ [time]

/-- Calls at times that do not decrease. -/
inductive Call (datetimeString : Int → List UInt8) : History → History → Prop
  | write {h : History} (data : List UInt8) (count : Nat) (clock : Clock)
      (hnow : h.now ≤ clock.check) :
      Call datetimeString h
        { stored := h.stored.writeToUserSpaceMemory datetimeString data count clock
          now := clock.refetch
          openedAt := openedBehind h.stored
            (h.stored.writeToUserSpaceMemory datetimeString data count clock) h.openedAt clock.io
          records := h.records ++ [(h.stored.name, data)] }
  | flush {h : History} (time : Int) (hnow : h.now ≤ time) :
      Call datetimeString h { h with stored := h.stored.flushToDisk time, now := time }

/-- The log file that the constructor opens at `time`. -/
def opened (file : LogFile) (disk : List UInt8 → List UInt8) (time : Int) : History :=
  ⟨⟨file, [], disk⟩, time, [time], []⟩

section Run

variable {datetimeString : Int → List UInt8} {baseName : List UInt8}
  {disk : List UInt8 → List UInt8} {h t : History}

/-- What all calls keep: each file holds what has been written under its name, and the names are
those of increasing times. -/
structure Kept (datetimeString : Int → List UInt8) (baseName : List UInt8)
    (disk : List UInt8 → List UInt8) (h : History) : Prop where
  contents : ∀ n, h.stored.contents n = disk n ++ piecesOf n h.records
  base : h.stored.file.baseName = baseName
  increasing : h.openedAt.Pairwise (· < ·)
  last : ∃ earlier time, h.openedAt = earlier ++ [time] ∧ time ≤ h.now ∧
    h.stored.name = getNameForANewUnderlyingPhysicalFile datetimeString baseName time
  grouped : (h.names datetimeString baseName).Nodup →
    Grouped (h.names datetimeString baseName) (h.records.map (·.1))

theorem kept_opened {file : LogFile} {time : Int}
    (hnew : LogFile.new datetimeString baseName time = .ok file) :
    Kept datetimeString baseName disk (opened file disk time) := by
  by_cases hslash : 47 ∈ baseName
  · rw [LogFile.new, if_pos hslash] at hnew
    cases hnew
  · rw [LogFile.new, if_neg hslash] at hnew
    cases hnew
    constructor
    · intro n
      rw [opened, Stored.contents, ite_self]
      rfl
    · rfl
    · exact List.pairwise_singleton _ _
    · exact ⟨[], time, rfl, Int.le_refl _, rfl⟩
    · intro hnodup
      exact ⟨hnodup, by simp [opened], by simp [opened]⟩

/-- A check leaves the physical file, or opens one with a new name, or one with the same name. -/
theorem Kept.checked (hkept : Kept datetimeString baseName disk h) {after : Stored}
    {clock : Clock} (hnow : h.now ≤ clock.check)
    (hchecked : Stored.Checked datetimeString clock h.stored after) :
    Kept datetimeString baseName disk { h with
      stored := after
      now := clock.refetch
      openedAt := openedBehind h.stored after h.openedAt clock.io } := by
  obtain ⟨earlier, time, hopened, htime, hcurrent⟩ := hkept.last
  have hordered := clock.ordered
  have hrefetch : time ≤ clock.refetch := by omega
  have hcontents : ∀ n, after.contents n = disk n ++ piecesOf n h.records := by
    intro n
    rw [hchecked.contents, hkept.contents]
  have hbase := hchecked.baseName.trans hkept.base
  have hname := hchecked.name
  rw [hkept.base] at hname
  rw [openedBehind]
  by_cases hsame : after.name = h.stored.name
  · rw [if_pos hsame]
    exact ⟨hcontents, hbase, hkept.increasing,
      ⟨earlier, time, hopened, hrefetch, hsame.trans hcurrent⟩, hkept.grouped⟩
  · rw [if_neg hsame]
    have hnew := hname.resolve_left hsame
    have hlater : time < clock.io := by
      by_contra hnot
      have heq : clock.io = time := by omega
      rw [hnew, hcurrent, heq] at hsame
      exact hsame rfl
    have hall : ∀ u ∈ h.openedAt, u < clock.io := by
      intro u hu
      have hincreasing := hkept.increasing
      rw [hopened] at hu hincreasing
      cases List.mem_append.mp hu with
      | inl hearlier =>
        have hlt := (List.pairwise_append.mp hincreasing).2.2 u hearlier time
          (List.mem_singleton_self _)
        omega
      | inr hlast =>
        rw [List.mem_singleton.mp hlast]
        exact hlater
    refine ⟨hcontents, hbase, ?_, ⟨h.openedAt, clock.io, rfl, hordered.2, hnew⟩,
      fun hnodup => ?_⟩
    · refine List.pairwise_append.mpr ⟨hkept.increasing, List.pairwise_singleton _ _, ?_⟩
      intro u hu v hv
      rw [List.mem_singleton.mp hv]
      exact hall u hu
    · rw [History.names, List.map_append, List.map_singleton] at hnodup ⊢
      obtain ⟨hold, _, hdisjoint⟩ := List.nodup_append.mp hnodup
      refine (hkept.grouped hold).open_new fun hmem => ?_
      exact hdisjoint _ hmem _ (List.mem_singleton_self _) rfl

/-- What is written goes to the file that is open before the check. -/
theorem Kept.fwrite (hkept : Kept datetimeString baseName disk h) (data : List UInt8)
    (count : Nat) : Kept datetimeString baseName disk { h with
      stored := h.stored.fwrite data count
      records := h.records ++ [(h.stored.name, data)] } where
  contents n := by
    rw [Stored.contents_fwrite, hkept.contents, piecesOf_append, List.append_assoc]
  base := hkept.base
  increasing := hkept.increasing
  last := hkept.last
  grouped hnodup := by
    obtain ⟨earlier, time, hopened, _, hcurrent⟩ := hkept.last
    have hgrouped := hkept.grouped hnodup
    rw [History.names, hopened, List.map_append, List.map_singleton] at hgrouped ⊢
    rw [hcurrent, List.map_append, List.map_singleton]
    exact hgrouped.append

theorem Kept.call (hkept : Kept datetimeString baseName disk h)
    (hcall : Call datetimeString h t) : Kept datetimeString baseName disk t := by
  cases hcall with
  | write data count clock hnow =>
    have hchecked := ((h.stored.fwrite data count).checked_quickCheck datetimeString clock).1
    exact (hkept.fwrite data count).checked hnow hchecked
  | flush time hnow =>
    let clock : Clock := ⟨time, time, time, Int.le_refl _, Int.le_refl _⟩
    have hchecked := h.stored.checked_flush datetimeString clock time
    have hflushed := hkept.checked hnow hchecked
    have hname : (h.stored.flushToDisk time).name = h.stored.name := rfl
    rw [openedBehind, if_pos hname] at hflushed
    exact hflushed

/-- Only the file that is open grows, and only while there is room in it. -/
theorem total_le {file : LogFile} {time : Int}
    (hnew : LogFile.new datetimeString baseName time = .ok file)
    (hr : Reaches (Call datetimeString) (opened file disk time) h) :
    h.stored.file.physicalFile.totalNumberOfBytesWritten ≤ PHYSICAL_FILE_SIZE_THRESHOLD := by
  refine hr.invariant (I := fun h => h.stored.file.physicalFile.totalNumberOfBytesWritten ≤
    PHYSICAL_FILE_SIZE_THRESHOLD) ?_ fun a b ha hcall => ?_
  · rw [LogFile.new] at hnew
    split at hnew
    · cases hnew
    · cases hnew
      exact Nat.zero_le _
  · cases hcall with
    | write data count clock _ =>
      exact ((a.stored.fwrite data count).checked_quickCheck datetimeString clock).2
    | flush time _ => exact ha

/-- In every run of writes and flushes, wherever the buffer is written out meanwhile and however
often the physical file is switched: under each name there is what was there before, and behind it
what has been written while that file was open, and a flush puts all of it on the disk. No file
begins a write with more than the threshold. The files are opened in different seconds; if these
give them different names, each piece is in one of them as a whole, and new files, one behind the
other, are the log. -/
theorem contents_of_reaches {file : LogFile} {time : Int}
    (hnew : LogFile.new datetimeString baseName time = .ok file)
    (hr : Reaches (Call datetimeString) (opened file disk time) h) :
    (∀ n, h.stored.disk n ++ (if n = h.stored.name then h.stored.buffered else []) =
      disk n ++ piecesOf n h.records) ∧
    (∀ moment n, (h.stored.flushToDisk moment).disk n = disk n ++ piecesOf n h.records) ∧
    h.stored.file.physicalFile.totalNumberOfBytesWritten ≤ PHYSICAL_FILE_SIZE_THRESHOLD ∧
    h.openedAt.Pairwise (· < ·) ∧
    ((h.names datetimeString baseName).Nodup →
      Grouped (h.names datetimeString baseName) (h.records.map (·.1)) ∧
      ((∀ n ∈ h.names datetimeString baseName, disk n = []) → ∀ moment,
        (h.names datetimeString baseName).flatMap (h.stored.flushToDisk moment).disk =
          h.records.flatMap (·.2))) := by
  have hkept : Kept datetimeString baseName disk h :=
    hr.invariant (kept_opened hnew) fun _ _ hkept hcall => hkept.call hcall
  have hflushed : ∀ moment n,
      (h.stored.flushToDisk moment).disk n = disk n ++ piecesOf n h.records := by
    intro moment n
    have hdisk := congrFun h.stored.disk_writeOut n
    rw [hkept.contents] at hdisk
    exact hdisk
  refine ⟨hkept.contents, hflushed, total_le hnew hr, hkept.increasing, fun hnodup => ?_⟩
  have hgrouped := hkept.grouped hnodup
  refine ⟨hgrouped, fun hfresh moment => ?_⟩
  rw [← hgrouped.contents]
  refine List.flatMap_congr fun n hn => ?_
  rw [hflushed, hfresh n hn, List.nil_append]

end Run

def namedFile : LogFile :=
  ⟨bytes "server", openPhysicalFile (fun _ => bytes "0") (bytes "server") 0, 0, 0⟩

/-- One byte of a write has been written out, the other one is in the buffer. -/
def halfWritten : History where
  stored := Stored.writeToUserSpaceMemory (fun _ => bytes "0") ⟨namedFile, [], fun _ => []⟩
    (bytes "on") 1 ⟨0, 0, 0, by decide⟩
  now := 0
  openedAt := [0]
  records := [(namedFile.physicalFile.name, bytes "on")]

theorem contents_of_write : halfWritten.stored.buffered = bytes "n" ∧
    ∀ moment, (halfWritten.names (fun _ => bytes "0") (bytes "server")).flatMap
      (halfWritten.stored.flushToDisk moment).disk = bytes "on" := by
  have hwrite : Call (fun _ => bytes "0") (opened namedFile (fun _ => []) 0) halfWritten :=
    .write (bytes "on") 1 ⟨0, 0, 0, by decide⟩ (Int.le_refl 0)
  have hnew : LogFile.new (fun _ => bytes "0") (bytes "server") 0 = .ok namedFile := rfl
  obtain ⟨_, _, _, _, hgrouped⟩ :=
    contents_of_reaches hnew (Relation.ReflTransGen.single hwrite)
  refine ⟨by decide, fun moment => ?_⟩
  exact (hgrouped (by decide)).2 (fun _ _ => rfl) moment

end XubinhServer.LogFile

import XubinhServer.Lib.Transition
import XubinhServer.Process

/-! The log file: physical files, one after the other, that are flushed and switched at the checks
that writes make. -/
namespace XubinhServer

/-- `flushedAt` is when the file has been flushed last, or opened. -/
structure PhysicalFile where
  name : List UInt8
  totalNumberOfBytesWritten : Nat
  flushedAt : Int

structure LogFile where
  baseName : List UInt8
  physicalFile : PhysicalFile
  timeOfLastMajorCheck : Int
  numberOfNormalChecks : Nat

namespace LogFile

open Transition

def PHYSICAL_FILE_SIZE_THRESHOLD : Nat := 500 * 1000 * 1000

def FLUSH_INTERVAL_IN_SECONDS : Int := 3

def SWITCH_INTERVAL_IN_SECONDS : Int := 24 * 60 * 60

def MAJOR_CHECK_FREQUENCY : Nat := 1000

/-- What the clock says in one call: at the check, while a file is flushed or switched, and behind
that. -/
structure Clock where
  check : Int
  io : Int
  refetch : Int
  ordered : check ≤ io ∧ io ≤ refetch

/-- What a formal check does. -/
inductive Action where
  | nothing
  | flush
  | switch
  deriving DecidableEq, Repr

def switchInterval (time : Int) : Int := time.tdiv SWITCH_INTERVAL_IN_SECONDS

section

variable (datetimeString : Int → List UInt8)

def getNameForANewUnderlyingPhysicalFile (baseName : List UInt8) (time : Int) : List UInt8 :=
  baseName ++ bytes "." ++ datetimeString time ++ bytes ".log"

def openPhysicalFile (baseName : List UInt8) (time : Int) : PhysicalFile :=
  ⟨getNameForANewUnderlyingPhysicalFile datetimeString baseName time, 0, time⟩

/-- The constructor. -/
def new (baseName : List UInt8) (time : Int) : Except String LogFile :=
  if 47 ∈ baseName then throw "File name contains slash which is unsafe"
  else pure ⟨baseName, openPhysicalFile datetimeString baseName time, 0, 0⟩

def flushToDisk (f : LogFile) (time : Int) : LogFile :=
  { f with physicalFile := { f.physicalFile with flushedAt := time } }

def switchToANewUnderlyingPhysicalFile (f : LogFile) (time : Int) : LogFile :=
  { f with physicalFile := openPhysicalFile datetimeString f.baseName time }

def isInANewSwitchInterval (f : LogFile) (time : Int) : Bool :=
  switchInterval time ≠ switchInterval f.timeOfLastMajorCheck

def doFormalCheck (f : LogFile) (clock : Clock) : LogFile × Action :=
  if f.isInANewSwitchInterval clock.check then
    ({ f.switchToANewUnderlyingPhysicalFile datetimeString clock.io with
      timeOfLastMajorCheck := clock.refetch }, .switch)
  else if clock.check - f.timeOfLastMajorCheck > FLUSH_INTERVAL_IN_SECONDS then
    ({ f.flushToDisk clock.io with timeOfLastMajorCheck := clock.refetch }, .flush)
  else ({ f with timeOfLastMajorCheck := clock.check }, .nothing)

/-- The second component is what a formal check has done, if there was one. -/
def doQuickCheck (f : LogFile) (clock : Clock) : LogFile × Option Action :=
  let f := { f with numberOfNormalChecks := f.numberOfNormalChecks + 1 }
  if f.physicalFile.totalNumberOfBytesWritten > PHYSICAL_FILE_SIZE_THRESHOLD then
    ({ f.switchToANewUnderlyingPhysicalFile datetimeString clock.io with
      numberOfNormalChecks := 0 }, none)
  else if f.numberOfNormalChecks ≤ MAJOR_CHECK_FREQUENCY then (f, none)
  else
    let checked := f.doFormalCheck datetimeString clock
    ({ checked.1 with numberOfNormalChecks := 0 }, some checked.2)

/-- `written` is the number of bytes that `fwrite` has taken. -/
def writeToUserSpaceMemory (f : LogFile) (written : Nat) (clock : Clock) :
    LogFile × Option Action :=
  let physicalFile := { f.physicalFile with
    totalNumberOfBytesWritten := f.physicalFile.totalNumberOfBytesWritten + written }
  { f with physicalFile := physicalFile }.doQuickCheck datetimeString clock

end

/-- A formal check: when it started and when it was over, when the file had been flushed or opened
before, and what was done. -/
structure Check where
  started : Int
  finished : Int
  flushedAt : Int
  action : Action

/-- The file, the formal checks so far with the latest one first, and the time. -/
structure State where
  file : LogFile
  checks : List Check
  now : Int

/-- A check that does nothing is over when it starts. -/
def finished (clock : Clock) (action : Action) : Int :=
  if action = .nothing then clock.check else clock.refetch

def State.write (datetimeString : Int → List UInt8) (s : State) (written : Nat) (clock : Clock) :
    State :=
  match s.file.writeToUserSpaceMemory datetimeString written clock with
  | (file, none) => ⟨file, s.checks, clock.refetch⟩
  | (file, some action) =>
    ⟨file, ⟨clock.check, finished clock action, s.file.physicalFile.flushedAt, action⟩ ::
      s.checks, clock.refetch⟩

/-- Writes at times that do not decrease. -/
inductive Step (datetimeString : Int → List UInt8) : State → State → Prop
  | write {s : State} (written : Nat) (clock : Clock) (hnow : s.now ≤ clock.check) :
      Step datetimeString s (s.write datetimeString written clock)

end LogFile

end XubinhServer

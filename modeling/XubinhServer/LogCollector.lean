import Mathlib.Algebra.Group.Nat.Defs
import Mathlib.Data.List.Forall2
import XubinhServer.Lib.Transition
import XubinhServer.Process

/-! The log collector: buffers that threads fill with entries and that a background thread writes
into the log file. -/
namespace XubinhServer

def LOG_ENTRY_BUFFER_SIZE : Nat := 4 * 1000

def LOG_CHUNK_BUFFER_SIZE : Nat := 4 * 1000 * 1000

/-- `data` is what lies before the spare. The last byte is for the `\0`. -/
structure FixedSizeLogBuffer (size : Nat) where
  data : List UInt8
  fits : data.length ≤ size - 1

namespace FixedSizeLogBuffer

variable {size : Nat}

def new : FixedSizeLogBuffer size := ⟨[], Nat.zero_le _⟩

def length (b : FixedSizeLogBuffer size) : Nat := b.data.length

def lengthOfSpare (b : FixedSizeLogBuffer size) : Nat := size - 1 - b.data.length

/-- Data that does not fit is thrown away. -/
def append (b : FixedSizeLogBuffer size) (data : List UInt8) : FixedSizeLogBuffer size :=
  if h : data.length > b.lengthOfSpare then b
  else ⟨b.data ++ data, by
    have hfits := b.fits
    rw [lengthOfSpare] at h
    rw [List.length_append]
    omega⟩

def reset (_ : FixedSizeLogBuffer size) : FixedSizeLogBuffer size := ⟨[], Nat.zero_le _⟩

theorem append_data {b : FixedSizeLogBuffer size} {data : List UInt8}
    (h : data.length ≤ b.lengthOfSpare) : (b.append data).data = b.data ++ data := by
  rw [append, dif_neg (Nat.not_lt.mpr h)]

end FixedSizeLogBuffer

abbrev LogChunkBuffer := FixedSizeLogBuffer LOG_CHUNK_BUFFER_SIZE

abbrev ChunkBufferPtr := Option LogChunkBuffer

/-- The members that the threads share. -/
structure LogCollector where
  currentChunkBufferPtr : ChunkBufferPtr
  spareChunkBufferPtr : ChunkBufferPtr
  fulledChunkBuffers : List ChunkBufferPtr
  needFlush : Bool
  needStop : Bool

namespace LogCollector

open Transition

inductive Fault where
  | nullPointer
  | runtimeError (what : String)
  deriving DecidableEq, Repr

/-- Where the background thread is: before its critical section, in `_cond.wait_for`, behind the
critical section, or behind its `return`. -/
inductive Phase where
  | collecting
  | waiting
  | writing
  | returned (entriesTaken : List (List UInt8))

/-- The variables of the background thread, and the bytes that it has written to `log_file`. -/
structure Background where
  spareForCurrent : ChunkBufferPtr
  spareForSpare : ChunkBufferPtr
  toBeWritten : List ChunkBufferPtr
  logFile : List UInt8
  phase : Phase

def dropThresholdOfChunkBuffersToBeWritten : Nat := 16

def new : LogCollector := ⟨some .new, some .new, [], false, false⟩

def Background.new : Background := ⟨some .new, some .new, [], [], .collecting⟩

def deref {α : Type} (pointer : Option α) : Except Fault α :=
  match pointer with
  | none => throw .nullPointer
  | some a => pure a

/-- The critical section of `take_this_log`, with the terminal mode off. -/
def takeThisLog (c : LogCollector) (entry : List UInt8) : Except Fault LogCollector := do
  let current ← deref c.currentChunkBufferPtr
  if entry.length < current.lengthOfSpare then
    pure { c with currentChunkBufferPtr := some (current.append entry) }
  else
    let next := match c.spareChunkBufferPtr with
      | some spare => spare
      | none => .new
    pure { c with
      fulledChunkBuffers := c.fulledChunkBuffers ++ [c.currentChunkBufferPtr]
      spareChunkBufferPtr := none
      currentChunkBufferPtr := some (next.append entry) }

/-- The end of the background thread's critical section: it takes all buffers, and leaves its
spares. -/
def swapOut (c : LogCollector) (b : Background) : Except Fault (LogCollector × Background) := do
  let fulledChunkBuffers := c.fulledChunkBuffers ++ [c.currentChunkBufferPtr]
  if c.spareChunkBufferPtr.isSome then throw (.runtimeError "never reaches here")
  pure ({ c with
      fulledChunkBuffers := b.toBeWritten
      currentChunkBufferPtr := b.spareForCurrent
      spareChunkBufferPtr := b.spareForSpare },
    { b with
      toBeWritten := fulledChunkBuffers
      spareForCurrent := none
      spareForSpare := none
      phase := .writing })

/-- The critical section of the background thread behind its `wait_for`. `entriesTaken` is what has
been logged so far. -/
def criticalSection (entriesTaken : List (List UInt8)) (c : LogCollector) (b : Background) :
    Except Fault (LogCollector × Background) :=
  if c.fulledChunkBuffers.isEmpty then
    if c.needStop then do
      let current ← deref c.currentChunkBufferPtr
      let logFile := if current.length ≠ 0 then b.logFile ++ current.data else b.logFile
      pure (c, { b with logFile := logFile, phase := .returned entriesTaken })
    else if c.needFlush then do
      let spare ← deref c.spareChunkBufferPtr
      swapOut { c with
        needFlush := false
        fulledChunkBuffers := c.fulledChunkBuffers ++ [some (spare.append (bytes "flush\n"))]
        spareChunkBufferPtr := none } b
    else pure (c, { b with phase := .collecting })
  else swapOut c b

/-- The conversion to an `int` of 32 bits. -/
def toInt (n : Nat) : Int := (n : Int).bmod (2 ^ 32)

def droppedMessage (numberOfDroppedBuffers : Int) (date : String) : List UInt8 :=
  bytes ("Dropped " ++ toString numberOfDroppedBuffers ++ " chunk buffers at " ++ date ++ "\n")

/-- The buffers are written one after the other. -/
def writeAll (logFile : List UInt8) : List ChunkBufferPtr → Except Fault (List UInt8)
  | [] => pure logFile
  | pointer :: rest => do
    let buffer ← deref pointer
    writeAll (logFile ++ buffer.data) rest

/-- The rest of a pass of the background thread, without the mutex. -/
def writePass (date : String) (b : Background) : Except Fault Background := do
  let number := b.toBeWritten.length
  let dropped := number > dropThresholdOfChunkBuffersToBeWritten
  let logFile := if dropped then
      b.logFile ++ droppedMessage (toInt (number - dropThresholdOfChunkBuffersToBeWritten)) date
    else b.logFile
  let toBeWritten := if dropped then
      b.toBeWritten.take dropThresholdOfChunkBuffersToBeWritten
    else b.toBeWritten
  let logFile ← writeAll logFile toBeWritten
  -- `resize(2)` fills up with null pointers
  let first := (toBeWritten[0]?).join
  let second := (toBeWritten[1]?).join
  if b.spareForCurrent.isSome || b.spareForSpare.isSome then
    throw (.runtimeError "never reaches here")
  let spareForCurrent ← deref first
  let spareForSpare ← deref second
  pure { b with
    spareForCurrent := some spareForCurrent.reset
    spareForSpare := some spareForSpare.reset
    toBeWritten := []
    logFile := logFile
    phase := .collecting }

/-- What a pass has swapped out, and the date at which it has been written. -/
structure Pass where
  buffers : List ChunkBufferPtr
  date : String

/-- The collector, the background thread, and the history: the entries that have been taken, and
the passes. -/
structure State where
  collector : LogCollector
  background : Background
  entriesTaken : List (List UInt8)
  passes : List Pass
  fault : Option Fault

namespace State

def initial : State := ⟨.new, .new, [], [], none⟩

def take (s : State) (entry : List UInt8) : State :=
  match s.collector.takeThisLog entry with
  | .error fault => { s with fault := some fault }
  | .ok c => { s with collector := c, entriesTaken := s.entriesTaken ++ [entry] }

/-- The background thread has the mutex, and does not wait any more. -/
def collect (s : State) : State :=
  match criticalSection s.entriesTaken s.collector s.background with
  | .error fault => { s with fault := some fault }
  | .ok (c, b) => { s with collector := c, background := b }

/-- The background thread gets the mutex. -/
def enter (s : State) : State :=
  if s.collector.fulledChunkBuffers.isEmpty then
    { s with background := { s.background with phase := .waiting } }
  else s.collect

def write (s : State) (date : String) : State :=
  match writePass date s.background with
  | .error fault => { s with fault := some fault }
  | .ok b => { s with
      background := b
      passes := s.passes ++ [⟨s.background.toBeWritten, date⟩] }

end State

/-- An entry is taken in some thread, somebody asks for a flush or for the end, or the background
thread goes on. Its wait ends by a signal, by the time, or for no reason. -/
inductive Step : State → State → Prop
  | take {s : State} (entry : List UInt8) (hs : s.fault = none) : Step s (s.take entry)
  | flush {s : State} (hs : s.fault = none) :
      Step s { s with collector := { s.collector with needFlush := true } }
  | stop {s : State} (hs : s.fault = none) :
      Step s { s with collector := { s.collector with needStop := true } }
  | enter {s : State} (hs : s.fault = none) (hphase : s.background.phase = .collecting) :
      Step s s.enter
  | wake {s : State} (hs : s.fault = none) (hphase : s.background.phase = .waiting) :
      Step s s.collect
  | write {s : State} (date : String) (hs : s.fault = none)
      (hphase : s.background.phase = .writing) : Step s (s.write date)

end LogCollector

end XubinhServer

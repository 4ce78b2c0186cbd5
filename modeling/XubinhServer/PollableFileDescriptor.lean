import XubinhServer.Process

/-! A file descriptor that is listened on by the poller of one event loop. -/
namespace XubinhServer

namespace EventPoller

def epollIn : UInt32 := 0x001
def epollPri : UInt32 := 0x002
def epollOut : UInt32 := 0x004
def epollErr : UInt32 := 0x008
def epollHup : UInt32 := 0x010
def epollRdHup : UInt32 := 0x2000
def epollEt : UInt32 := 0x80000000

def eventTypeRead : UInt32 := epollIn ||| epollPri ||| epollRdHup
def eventTypeWrite : UInt32 := epollOut
def eventTypeClose : UInt32 := epollHup
def eventTypeError : UInt32 := epollErr

/-- `active & type`, read as a condition. -/
def has (active type : UInt32) : Bool := active &&& type != 0

end EventPoller

open EventPoller

/-- Only an attached descriptor listens. -/
structure PollableFileDescriptor where
  isReading : Bool
  isWriting : Bool
  isDetached : Bool
  initialEpollEvent : UInt32
  events : UInt32
  reading_attached : isReading = true → isDetached = false
  writing_attached : isWriting = true → isDetached = false
  deriving DecidableEq

namespace PollableFileDescriptor

def new (preferEt : Bool) : PollableFileDescriptor where
  isReading := false
  isWriting := false
  isDetached := true
  initialEpollEvent := if preferEt then epollEt else 0
  events := if preferEt then epollEt else 0
  reading_attached := by simp
  writing_attached := by simp

/-- Registering the new mask attaches the descriptor. -/
def registerEvent (p : PollableFileDescriptor) (isReading isWriting : Bool) (events : UInt32) :
    PollableFileDescriptor where
  isReading := isReading
  isWriting := isWriting
  isDetached := false
  initialEpollEvent := p.initialEpollEvent
  events := events
  reading_attached := fun _ => rfl
  writing_attached := fun _ => rfl

def enableReadEvent (p : PollableFileDescriptor) : PollableFileDescriptor :=
  if p.isReading then p else p.registerEvent true p.isWriting (p.events ||| eventTypeRead)

def disableReadEvent (p : PollableFileDescriptor) : PollableFileDescriptor :=
  if !p.isReading then p else p.registerEvent false p.isWriting (p.events &&& ~~~eventTypeRead)

def enableWriteEvent (p : PollableFileDescriptor) : PollableFileDescriptor :=
  if p.isWriting then p else p.registerEvent p.isReading true (p.events ||| eventTypeWrite)

def disableWriteEvent (p : PollableFileDescriptor) : PollableFileDescriptor :=
  if !p.isWriting then p else p.registerEvent p.isReading false (p.events &&& ~~~eventTypeWrite)

def detachFromPoller (p : PollableFileDescriptor) : PollableFileDescriptor :=
  if p.isDetached then p
  else
    { isReading := false
      isWriting := false
      isDetached := true
      initialEpollEvent := p.initialEpollEvent
      events := p.initialEpollEvent
      reading_attached := by simp
      writing_attached := by simp }

variable (p : PollableFileDescriptor)

theorem isReading_of_detached (h : p.isDetached = true) : p.isReading = false := by
  by_contra hr
  simpa [h] using p.reading_attached (by simpa using hr)

theorem isWriting_of_detached (h : p.isDetached = true) : p.isWriting = false := by
  by_contra hw
  simpa [h] using p.writing_attached (by simpa using hw)

@[simp] theorem enableWriteEvent_isWriting : p.enableWriteEvent.isWriting = true := by
  unfold enableWriteEvent
  split <;> simp_all [registerEvent]

@[simp] theorem enableWriteEvent_isReading : p.enableWriteEvent.isReading = p.isReading := by
  unfold enableWriteEvent
  split <;> rfl

@[simp] theorem enableWriteEvent_isDetached : p.enableWriteEvent.isDetached = false := by
  unfold enableWriteEvent
  split
  · rename_i hw
    exact p.writing_attached hw
  · rfl

@[simp] theorem enableReadEvent_isReading : p.enableReadEvent.isReading = true := by
  unfold enableReadEvent
  split <;> simp_all [registerEvent]

@[simp] theorem enableReadEvent_isDetached : p.enableReadEvent.isDetached = false := by
  unfold enableReadEvent
  split
  · rename_i hr
    exact p.reading_attached hr
  · rfl

@[simp] theorem disableWriteEvent_isWriting : p.disableWriteEvent.isWriting = false := by
  unfold disableWriteEvent
  split <;> simp_all [registerEvent]

@[simp] theorem disableWriteEvent_isReading : p.disableWriteEvent.isReading = p.isReading := by
  unfold disableWriteEvent
  split <;> rfl

/-- Disabling registers only what was enabled, so it never attaches the descriptor. -/
@[simp] theorem disableWriteEvent_isDetached :
    p.disableWriteEvent.isDetached = p.isDetached := by
  unfold disableWriteEvent
  split
  · rfl
  · rename_i hw
    exact (p.writing_attached (by simpa using hw)).symm

@[simp] theorem disableReadEvent_isReading : p.disableReadEvent.isReading = false := by
  unfold disableReadEvent
  split <;> simp_all [registerEvent]

@[simp] theorem disableReadEvent_isWriting : p.disableReadEvent.isWriting = p.isWriting := by
  unfold disableReadEvent
  split <;> rfl

@[simp] theorem disableReadEvent_isDetached :
    p.disableReadEvent.isDetached = p.isDetached := by
  unfold disableReadEvent
  split
  · rfl
  · rename_i hr
    exact (p.reading_attached (by simpa using hr)).symm

@[simp] theorem detachFromPoller_isDetached : p.detachFromPoller.isDetached = true := by
  unfold detachFromPoller
  split <;> simp_all

@[simp] theorem detachFromPoller_isReading : p.detachFromPoller.isReading = false :=
  p.detachFromPoller.isReading_of_detached p.detachFromPoller_isDetached

@[simp] theorem detachFromPoller_isWriting : p.detachFromPoller.isWriting = false :=
  p.detachFromPoller.isWriting_of_detached p.detachFromPoller_isDetached

end PollableFileDescriptor

end XubinhServer

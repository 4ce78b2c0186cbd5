import Mathlib.Data.Fintype.Card
import XubinhServer.Lib.Transition
import XubinhServer.PollableFileDescriptor

/-! The poller of a loop and the descriptors on it: the flags of each descriptor, the poller's
table and its counter, and the set that the kernel watches. -/
namespace XubinhServer

open Function (update)

open Transition

/-- A request to `::epoll_ctl`. -/
inductive EpollCtl where
  | add (events : UInt32)
  | mod (events : UInt32)
  | del
  deriving DecidableEq, Repr

/-- `::epoll_ctl` on the watched fds and their masks. It fails where a present fd is added, or an
absent one modified or deleted. -/
def EpollCtl.run (watched : Nat → Option UInt32) (fd : Nat) : EpollCtl →
    Option (Nat → Option UInt32)
  | .add events => if (watched fd).isSome then none else some (update watched fd (some events))
  | .mod events => if (watched fd).isSome then some (update watched fd (some events)) else none
  | .del => if (watched fd).isSome then some (update watched fd none) else none

structure EventPoller where
  /-- what the kernel watches -/
  watched : Nat → Option UInt32
  /-- as long as the limit on open fds, which no fd reaches -/
  fdsThatAreListeningOn : Nat → Bool
  numberOfFdsThatAreListeningOn : Nat

namespace EventPoller

protected def new : EventPoller := ⟨fun _ => none, fun _ => false, 0⟩

protected def size (p : EventPoller) : Nat := p.numberOfFdsThatAreListeningOn

def epollCtl (p : EventPoller) (fd : Nat) (request : EpollCtl) :
    Except Halt (Nat → Option UInt32) :=
  match request.run p.watched fd with
  | none => throw (.logFatal ("epoll_ctl failed, fd: " ++ toString fd))
  | some watched => pure watched

def registerEventForFd (p : EventPoller) (fd : Nat) (events : UInt32) :
    Except Halt EventPoller := do
  let isAttached := p.fdsThatAreListeningOn fd
  let watched ← p.epollCtl fd (if isAttached then .mod events else .add events)
  if isAttached then pure { p with watched }
  else pure {
    watched
    fdsThatAreListeningOn := update p.fdsThatAreListeningOn fd true
    numberOfFdsThatAreListeningOn := p.numberOfFdsThatAreListeningOn + 1 }

def detachFd (p : EventPoller) (fd : Nat) : Except Halt EventPoller := do
  if !p.fdsThatAreListeningOn fd then pure p
  else
    let watched ← p.epollCtl fd .del
    pure {
      watched
      fdsThatAreListeningOn := update p.fdsThatAreListeningOn fd false
      numberOfFdsThatAreListeningOn := p.numberOfFdsThatAreListeningOn - 1 }

/-- The kernel forgets an fd that is closed. -/
protected def close (p : EventPoller) (fd : Nat) : EventPoller :=
  { p with watched := update p.watched fd none }

/-- The table says what the kernel watches. -/
protected def Agrees (p : EventPoller) : Prop :=
  ∀ fd, p.fdsThatAreListeningOn fd = (p.watched fd).isSome

variable {p : EventPoller} {fd : Nat}

theorem registerEventForFd_spec (h : p.Agrees) (fd : Nat) (events : UInt32) :
    ∃ q, p.registerEventForFd fd events = .ok q ∧ q.Agrees ∧
      q.watched = update p.watched fd (some events) ∧
      q.size = if (p.watched fd).isSome then p.size else p.size + 1 := by
  have hagrees : ∀ q : EventPoller, q.watched = update p.watched fd (some events) →
      (∀ a ≠ fd, q.fdsThatAreListeningOn a = p.fdsThatAreListeningOn a) →
      q.fdsThatAreListeningOn fd = true → q.Agrees := by
    intro q hwatched hothers hfd a
    rw [hwatched]
    by_cases ha : a = fd
    · rw [ha, hfd, Function.update_self]
      rfl
    · rw [hothers a ha, h a, Function.update_of_ne ha]
  simp only [registerEventForFd, epollCtl, h fd]
  cases hpresent : (p.watched fd).isSome with
  | true =>
    simp only [if_true, EpollCtl.run, hpresent]
    exact ⟨_, rfl, hagrees _ rfl (fun _ _ => rfl) ((h fd).trans hpresent), rfl, rfl⟩
  | false =>
    simp only [Bool.false_eq_true, if_false, EpollCtl.run, hpresent]
    exact ⟨_, rfl, hagrees _ rfl (fun a ha => Function.update_of_ne ha _ _)
      (Function.update_self _ _ _), rfl, rfl⟩

theorem detachFd_spec (h : p.Agrees) (hpresent : (p.watched fd).isSome = true) :
    ∃ q, p.detachFd fd = .ok q ∧ q.Agrees ∧ q.watched = update p.watched fd none ∧
      q.size = p.size - 1 := by
  simp only [detachFd, epollCtl, h fd, hpresent, EpollCtl.run, if_true]
  refine ⟨_, rfl, fun a => ?_, rfl, rfl⟩
  by_cases ha : a = fd
  · simp only [ha, Function.update_self, Option.isSome_none]
  · simp only [Function.update_of_ne ha]
    exact h a

/-- Whatever the table says, detaching leaves at most what has been watched before. -/
theorem detachFd_ok {q : EventPoller} (hok : p.detachFd fd = .ok q) :
    (∀ a, (q.watched a).isSome = true → (p.watched a).isSome = true) ∧
      (p.fdsThatAreListeningOn fd = true → q.watched fd = none) := by
  cases hlistening : p.fdsThatAreListeningOn fd with
  | false =>
    simp only [detachFd, hlistening] at hok
    cases hok
    exact ⟨fun _ hsome => hsome, fun htrue => absurd htrue (by decide)⟩
  | true =>
    simp only [detachFd, epollCtl, hlistening, EpollCtl.run] at hok
    cases hpresent : (p.watched fd).isSome with
    | false =>
      simp only [hpresent] at hok
      cases hok
    | true =>
      simp only [hpresent] at hok
      cases hok
      refine ⟨fun a hsome => ?_, fun _ => Function.update_self _ _ _⟩
      by_cases ha : a = fd
      · rw [ha]
        exact hpresent
      · exact Function.update_of_ne ha none p.watched ▸ hsome

theorem registerEventForFd_ok {q : EventPoller} {events : UInt32}
    (hok : p.registerEventForFd fd events = .ok q) :
    q.watched = update p.watched fd (some events) ∧ q.fdsThatAreListeningOn fd = true := by
  cases hlistening : p.fdsThatAreListeningOn fd with
  | false =>
    simp only [registerEventForFd, epollCtl, hlistening, EpollCtl.run] at hok
    cases hpresent : (p.watched fd).isSome with
    | true =>
      simp only [hpresent] at hok
      cases hok
    | false =>
      simp only [hpresent] at hok
      cases hok
      exact ⟨rfl, Function.update_self _ _ _⟩
  | true =>
    simp only [registerEventForFd, epollCtl, hlistening, EpollCtl.run] at hok
    cases hpresent : (p.watched fd).isSome with
    | false =>
      simp only [hpresent] at hok
      cases hok
    | true =>
      simp only [hpresent] at hok
      cases hok
      exact ⟨rfl, hlistening⟩

end EventPoller

/-- A descriptor and its fd. -/
structure Descriptor where
  fd : Nat
  pollable : PollableFileDescriptor

/-- The descriptors of one loop, used in the loop's thread. -/
structure Polling (ι : Type) where
  descriptors : ι → Descriptor
  poller : EventPoller

namespace Polling

open EventPoller

variable {ι : Type} [DecidableEq ι]

/-- Descriptors that have just been constructed. -/
def initial (fds : ι → Nat) (preferEt : ι → Bool) : Polling ι where
  descriptors i := ⟨fds i, .new (preferEt i)⟩
  poller := .new

/-- `_register_event` behind a change of the flags and the mask. -/
def registerEvent (s : Polling ι) (i : ι) (pollable : PollableFileDescriptor) :
    Except Halt (Polling ι) := do
  let fd := (s.descriptors i).fd
  let poller ← s.poller.registerEventForFd fd pollable.events
  pure { descriptors := update s.descriptors i ⟨fd, pollable⟩, poller }

def enableReadEvent (s : Polling ι) (i : ι) : Except Halt (Polling ι) :=
  let pollable := (s.descriptors i).pollable
  if pollable.isReading then pure s else s.registerEvent i pollable.enableReadEvent

def disableReadEvent (s : Polling ι) (i : ι) : Except Halt (Polling ι) :=
  let pollable := (s.descriptors i).pollable
  if !pollable.isReading then pure s else s.registerEvent i pollable.disableReadEvent

def enableWriteEvent (s : Polling ι) (i : ι) : Except Halt (Polling ι) :=
  let pollable := (s.descriptors i).pollable
  if pollable.isWriting then pure s else s.registerEvent i pollable.enableWriteEvent

def disableWriteEvent (s : Polling ι) (i : ι) : Except Halt (Polling ι) :=
  let pollable := (s.descriptors i).pollable
  if !pollable.isWriting then pure s else s.registerEvent i pollable.disableWriteEvent

def detachFromPoller (s : Polling ι) (i : ι) : Except Halt (Polling ι) := do
  let ⟨fd, pollable⟩ := s.descriptors i
  if pollable.isDetached then pure s
  else
    let poller ← s.poller.detachFd fd
    pure { descriptors := update s.descriptors i ⟨fd, pollable.detachFromPoller⟩, poller }

/-- The old fd is closed. -/
def resetTo (s : Polling ι) (i : ι) (newFd : Nat) : Except Halt (Polling ι) := do
  let t ← s.detachFromPoller i
  let ⟨fd, pollable⟩ := t.descriptors i
  pure { descriptors := update t.descriptors i ⟨newFd, pollable⟩, poller := t.poller.close fd }

/-- A call of a method of the descriptor `i`. -/
inductive Op (ι : Type) where
  | enableReadEvent (i : ι)
  | disableReadEvent (i : ι)
  | enableWriteEvent (i : ι)
  | disableWriteEvent (i : ι)
  | detachFromPoller (i : ι)
  | resetTo (i : ι) (newFd : Nat)

def Op.descriptor : Op ι → ι
  | .enableReadEvent i | .disableReadEvent i | .enableWriteEvent i | .disableWriteEvent i
  | .detachFromPoller i | .resetTo i _ => i

def Op.run (s : Polling ι) : Op ι → Except Halt (Polling ι)
  | .enableReadEvent i => s.enableReadEvent i
  | .disableReadEvent i => s.disableReadEvent i
  | .enableWriteEvent i => s.enableWriteEvent i
  | .disableWriteEvent i => s.disableWriteEvent i
  | .detachFromPoller i => s.detachFromPoller i
  | .resetTo i newFd => s.resetTo i newFd

/-- The fds stay distinct: a new one is open while the others are. -/
def Op.Distinct (s : Polling ι) : Op ι → Prop
  | .resetTo _ newFd => ∀ j, (s.descriptors j).fd ≠ newFd
  | _ => True

/-- A call by the users of a loop that has the descriptors `own` for itself. -/
def Step (own : List ι) (s t : Polling ι) : Prop :=
  ∃ op : Op ι, op.descriptor ∉ own ∧ op.Distinct s ∧ op.run s = .ok t

/-- The loop starts its eventfds and its timerfd when it is constructed. -/
def start (s : Polling ι) (own : List ι) : Except Halt (Polling ι) :=
  own.foldlM enableReadEvent s

/-- The test with which `loop` exits. -/
def exits (s : Polling ι) (numberOfFunctorBlockingQueues : Nat) : Bool :=
  s.poller.size == 1 + numberOfFunctorBlockingQueues

/-- The mask of a descriptor with the given flags. -/
def mask (initialEpollEvent : UInt32) (isReading isWriting : Bool) : UInt32 :=
  initialEpollEvent ||| (if isReading then eventTypeRead else 0) |||
    if isWriting then eventTypeWrite else 0

/-- The flags that a descriptor is constructed with. -/
def initialFlags (preferEt : Bool) : UInt32 := if preferEt then epollEt else 0

end Polling

/-- The mask follows the flags. -/
structure PollableFileDescriptor.Masked (p : PollableFileDescriptor) (preferEt : Bool) :
    Prop where
  initialEpollEvent : p.initialEpollEvent = Polling.initialFlags preferEt
  events : p.events = Polling.mask (Polling.initialFlags preferEt) p.isReading p.isWriting

namespace PollableFileDescriptor

open EventPoller Polling

variable {p : PollableFileDescriptor} {preferEt : Bool}

theorem masked_new (preferEt : Bool) : (new preferEt).Masked preferEt := by
  cases preferEt with
  | true => exact ⟨rfl, by decide⟩
  | false => exact ⟨rfl, by decide⟩

theorem Masked.register (h : p.Masked preferEt) {isReading isWriting : Bool} {events : UInt32}
    (hevents : events = mask (initialFlags preferEt) isReading isWriting) :
    (p.registerEvent isReading isWriting events).Masked preferEt :=
  ⟨h.initialEpollEvent, hevents⟩

theorem mask_or_read (preferEt isReading isWriting : Bool) :
    mask (initialFlags preferEt) isReading isWriting ||| eventTypeRead =
      mask (initialFlags preferEt) true isWriting := by
  revert preferEt isReading isWriting
  decide

theorem mask_and_not_read (preferEt isReading isWriting : Bool) :
    mask (initialFlags preferEt) isReading isWriting &&& ~~~eventTypeRead =
      mask (initialFlags preferEt) false isWriting := by
  revert preferEt isReading isWriting
  decide

theorem mask_or_write (preferEt isReading isWriting : Bool) :
    mask (initialFlags preferEt) isReading isWriting ||| eventTypeWrite =
      mask (initialFlags preferEt) isReading true := by
  revert preferEt isReading isWriting
  decide

theorem mask_and_not_write (preferEt isReading isWriting : Bool) :
    mask (initialFlags preferEt) isReading isWriting &&& ~~~eventTypeWrite =
      mask (initialFlags preferEt) isReading false := by
  revert preferEt isReading isWriting
  decide

theorem Masked.enableReadEvent (h : p.Masked preferEt) : p.enableReadEvent.Masked preferEt := by
  rw [PollableFileDescriptor.enableReadEvent]
  split
  · exact h
  · exact h.register (by rw [h.events, mask_or_read])

theorem Masked.disableReadEvent (h : p.Masked preferEt) : p.disableReadEvent.Masked preferEt := by
  rw [PollableFileDescriptor.disableReadEvent]
  split
  · exact h
  · exact h.register (by rw [h.events, mask_and_not_read])

theorem Masked.enableWriteEvent (h : p.Masked preferEt) :
    p.enableWriteEvent.Masked preferEt := by
  rw [PollableFileDescriptor.enableWriteEvent]
  split
  · exact h
  · exact h.register (by rw [h.events, mask_or_write])

theorem Masked.disableWriteEvent (h : p.Masked preferEt) :
    p.disableWriteEvent.Masked preferEt := by
  rw [PollableFileDescriptor.disableWriteEvent]
  split
  · exact h
  · exact h.register (by rw [h.events, mask_and_not_write])

theorem Masked.detachFromPoller (h : p.Masked preferEt) : p.detachFromPoller.Masked preferEt := by
  rw [PollableFileDescriptor.detachFromPoller]
  split
  · exact h
  · refine ⟨h.initialEpollEvent, ?_⟩
    simp [mask, h.initialEpollEvent]

end PollableFileDescriptor

namespace Polling

open EventPoller

variable {ι : Type} [Fintype ι] {s t : Polling ι} {preferEt : ι → Bool} {i : ι}
  {pollable : PollableFileDescriptor}

def attached (s : Polling ι) : Finset ι :=
  Finset.univ.filter fun i => (s.descriptors i).pollable.isDetached = false

@[simp] theorem mem_attached :
    i ∈ s.attached ↔ (s.descriptors i).pollable.isDetached = false := by
  rw [attached, Finset.mem_filter]
  exact and_iff_right (Finset.mem_univ i)

/-- The flags, the table, the counter and the kernel say the same. -/
structure Consistent (preferEt : ι → Bool) (s : Polling ι) : Prop where
  distinct : Function.Injective fun i => (s.descriptors i).fd
  masked : ∀ i, (s.descriptors i).pollable.Masked (preferEt i)
  agrees : s.poller.Agrees
  present : ∀ i ∈ s.attached, s.poller.watched (s.descriptors i).fd =
    some (s.descriptors i).pollable.events
  absent : ∀ fd, (∀ i ∈ s.attached, (s.descriptors i).fd ≠ fd) → s.poller.watched fd = none
  size : s.poller.size = s.attached.card

theorem Consistent.isSome_watched (h : Consistent preferEt s) (i : ι) :
    (s.poller.watched (s.descriptors i).fd).isSome = true ↔ i ∈ s.attached := by
  constructor
  · intro hsome
    by_contra hnot
    have hother : ∀ j ∈ s.attached, (s.descriptors j).fd ≠ (s.descriptors i).fd := by
      intro j hj hfd
      have hji : j = i := h.distinct hfd
      exact hnot (hji ▸ hj)
    rw [h.absent _ hother] at hsome
    exact nomatch hsome
  · intro hmem
    rw [h.present i hmem]
    rfl

section Steps

variable [DecidableEq ι]

omit [Fintype ι] in
/-- The fds do not change with the flags. -/
theorem fd_update (s : Polling ι) (pollable : PollableFileDescriptor) (i j : ι) :
    (update s.descriptors i ⟨(s.descriptors i).fd, pollable⟩ j).fd = (s.descriptors j).fd := by
  by_cases hj : j = i
  · rw [hj, Function.update_self]
  · rw [Function.update_of_ne hj]

theorem Consistent.masked_update (h : Consistent preferEt s)
    (hmasked : pollable.Masked (preferEt i)) {fd : Nat} (j : ι) :
    (update s.descriptors i ⟨fd, pollable⟩ j).pollable.Masked (preferEt j) := by
  by_cases hj : j = i
  · rw [hj, Function.update_self]
    exact hmasked
  · rw [Function.update_of_ne hj]
    exact h.masked j

theorem Consistent.registerEvent (h : Consistent preferEt s)
    (hmasked : pollable.Masked (preferEt i)) (hattached : pollable.isDetached = false) :
    ∃ t, s.registerEvent i pollable = .ok t ∧ Consistent preferEt t ∧
      t.attached = insert i s.attached := by
  obtain ⟨q, hok, hagrees, hwatched, hsize⟩ :=
    EventPoller.registerEventForFd_spec h.agrees (s.descriptors i).fd pollable.events
  let t : Polling ι :=
    { descriptors := update s.descriptors i ⟨(s.descriptors i).fd, pollable⟩, poller := q }
  have hinsert : t.attached = insert i s.attached := by
    ext j
    rw [Finset.mem_insert, mem_attached, mem_attached]
    by_cases hj : j = i
    · simp [t, hj, hattached]
    · simp [t, hj]
  refine ⟨t, by simp only [Polling.registerEvent, hok]; rfl, ⟨?_, h.masked_update hmasked, hagrees,
    fun j hj => ?_, fun fd hfd => ?_, ?_⟩, hinsert⟩
  · intro a b hab
    simp only [t, fd_update] at hab
    exact h.distinct hab
  · rw [show (t.descriptors j).fd = (s.descriptors j).fd from fd_update s pollable i j]
    change q.watched _ = _
    rw [hwatched]
    by_cases hji : j = i
    · rw [hji, Function.update_self]
      simp [t]
    · rw [hinsert, Finset.mem_insert] at hj
      rw [Function.update_of_ne fun hfd => hji (h.distinct hfd), h.present j (hj.resolve_left hji)]
      simp [t, hji]
  · have hold : ∀ j ∈ t.attached, (s.descriptors j).fd ≠ fd := fun j hj hfd' =>
      hfd j hj ((fd_update s pollable i j).trans hfd')
    rw [hinsert] at hold
    change q.watched fd = none
    rw [hwatched, Function.update_of_ne (hold i (Finset.mem_insert_self _ _)).symm]
    exact h.absent fd fun j hj => hold j (Finset.mem_insert_of_mem hj)
  · change q.size = _
    rw [hsize, hinsert, h.size]
    by_cases hmem : i ∈ s.attached
    · rw [if_pos ((h.isSome_watched i).mpr hmem), Finset.insert_eq_of_mem hmem]
    · rw [if_neg fun hsome => hmem ((h.isSome_watched i).mp hsome),
        Finset.card_insert_of_notMem hmem]

theorem Consistent.detachFromPoller (h : Consistent preferEt s) (i : ι) :
    ∃ t, s.detachFromPoller i = .ok t ∧ Consistent preferEt t ∧
      t.attached = s.attached.erase i ∧
      ∀ j, (t.descriptors j).fd = (s.descriptors j).fd := by
  simp only [Polling.detachFromPoller]
  cases hd : (s.descriptors i).pollable.isDetached with
  | true =>
    refine ⟨s, rfl, h, (Finset.erase_eq_of_notMem ?_).symm, fun _ => rfl⟩
    rw [mem_attached, hd]
    exact Bool.true_eq_false_eq_False
  | false =>
    have hmem : i ∈ s.attached := mem_attached.mpr hd
    obtain ⟨q, hok, hagrees, hwatched, hsize⟩ :=
      EventPoller.detachFd_spec h.agrees ((h.isSome_watched i).mpr hmem)
    let t : Polling ι := {
      descriptors := update s.descriptors i
        ⟨(s.descriptors i).fd, (s.descriptors i).pollable.detachFromPoller⟩
      poller := q }
    have hfds : ∀ j, (t.descriptors j).fd = (s.descriptors j).fd := fd_update s _ i
    have herase : t.attached = s.attached.erase i := by
      ext j
      rw [Finset.mem_erase, mem_attached, mem_attached]
      by_cases hj : j = i
      · simp [t, hj]
      · simp [t, hj]
    refine ⟨t, by simp only [Bool.false_eq_true, if_false, hok]; rfl, ⟨fun a b hab => ?_,
      h.masked_update (h.masked i).detachFromPoller, hagrees, fun j hj => ?_, fun fd hfd => ?_, ?_⟩,
      herase, hfds⟩
    · simp only [hfds] at hab
      exact h.distinct hab
    · rw [hfds]
      rw [herase, Finset.mem_erase] at hj
      change q.watched _ = _
      rw [hwatched, Function.update_of_ne fun hfd => hj.1 (h.distinct hfd), h.present j hj.2]
      simp [t, hj.1]
    · change q.watched fd = none
      rw [hwatched]
      by_cases hi : fd = (s.descriptors i).fd
      · rw [hi, Function.update_self]
      · rw [Function.update_of_ne hi]
        refine h.absent fd fun j hj hfd' => ?_
        have hji : j ≠ i := fun heq => hi (heq ▸ hfd'.symm)
        exact hfd j (herase ▸ Finset.mem_erase.mpr ⟨hji, hj⟩) ((hfds j).trans hfd')
    · change q.size = _
      rw [hsize, herase, h.size, Finset.card_erase_of_mem hmem]

/-- The new fd is watched by nobody yet, and the old one by nobody any more. -/
theorem Consistent.resetTo (h : Consistent preferEt s) (i : ι) {newFd : Nat}
    (hnew : ∀ j, (s.descriptors j).fd ≠ newFd) :
    ∃ t, s.resetTo i newFd = .ok t ∧ Consistent preferEt t ∧
      t.attached = s.attached.erase i := by
  obtain ⟨u, hok, hu, herase, hfds⟩ := h.detachFromPoller i
  have hi : i ∉ u.attached := by
    rw [herase]
    exact Finset.notMem_erase i _
  have hclose : u.poller.close (u.descriptors i).fd = u.poller := by
    have habsent := hu.absent (u.descriptors i).fd fun j hj hfd => hi (hu.distinct hfd ▸ hj)
    rw [EventPoller.close, Function.update_eq_self_iff.mpr habsent.symm]
  let t : Polling ι := {
    descriptors := update u.descriptors i ⟨newFd, (u.descriptors i).pollable⟩
    poller := u.poller }
  have hattached : t.attached = u.attached := by
    ext j
    rw [mem_attached, mem_attached]
    by_cases hj : j = i
    · simp [t, hj]
    · simp [t, hj]
  have hothers : ∀ j ≠ i, t.descriptors j = u.descriptors j := fun j hj =>
    Function.update_of_ne hj _ _
  have hfdi : (t.descriptors i).fd = newFd := by simp [t]
  have hnotNew : ∀ j ≠ i, (t.descriptors j).fd ≠ newFd := by
    intro j hj
    rw [hothers j hj, hfds]
    exact hnew j
  refine ⟨t, ?_, ⟨fun a b hab => ?_, hu.masked_update (hu.masked i), hu.agrees, fun j hj => ?_,
    fun fd hfd => hu.absent fd fun j hj hfd' => ?_, ?_⟩, hattached.trans herase⟩
  · simp only [Polling.resetTo, hok]
    change Except.ok _ = Except.ok _
    rw [hclose]
  · simp only at hab
    by_cases ha : a = i
    · by_contra hne
      have hb : b ≠ i := fun hb => hne (ha.trans hb.symm)
      rw [ha, hfdi] at hab
      exact hnotNew b hb hab.symm
    · by_cases hb : b = i
      · rw [hb, hfdi] at hab
        exact absurd hab (hnotNew a ha)
      · rw [hothers a ha, hothers b hb] at hab
        exact hu.distinct hab
  · rw [hattached] at hj
    have hji : j ≠ i := fun heq => hi (heq ▸ hj)
    rw [hothers j hji]
    exact hu.present j hj
  · have hji : j ≠ i := fun heq => hi (heq ▸ hj)
    exact hfd j (hattached ▸ hj) ((congrArg Descriptor.fd (hothers j hji)).trans hfd')
  · rw [hattached]
    exact hu.size

/-- A descriptor that reads is attached already. -/
theorem Consistent.enableReadEvent (h : Consistent preferEt s) (i : ι) :
    ∃ t, s.enableReadEvent i = .ok t ∧ Consistent preferEt t ∧
      t.attached = insert i s.attached := by
  simp only [Polling.enableReadEvent]
  split
  · rename_i hreading
    have hmem : i ∈ s.attached :=
      mem_attached.mpr ((s.descriptors i).pollable.reading_attached hreading)
    exact ⟨s, rfl, h, (Finset.insert_eq_of_mem hmem).symm⟩
  · exact h.registerEvent (h.masked i).enableReadEvent (by simp)

/-- No call asks the kernel for what it refuses, and it attaches or detaches its own descriptor
only. -/
theorem Consistent.run (h : Consistent preferEt s) (op : Op ι) (hdistinct : op.Distinct s) :
    ∃ t, op.run s = .ok t ∧ Consistent preferEt t ∧
      ∀ j ≠ op.descriptor, (j ∈ t.attached ↔ j ∈ s.attached) := by
  have hinserted : ∀ i (t : Polling ι), t.attached = insert i s.attached →
      ∀ j ≠ i, (j ∈ t.attached ↔ j ∈ s.attached) := by
    intro i t hinsert j hj
    rw [hinsert, Finset.mem_insert]
    exact or_iff_right hj
  have hregister : ∀ i pollable, pollable.Masked (preferEt i) → pollable.isDetached = false →
      ∃ t, s.registerEvent i pollable = .ok t ∧ Consistent preferEt t ∧
        ∀ j ≠ i, (j ∈ t.attached ↔ j ∈ s.attached) := by
    intro i pollable hmasked hattached
    obtain ⟨t, hok, ht, hinsert⟩ := h.registerEvent hmasked hattached
    exact ⟨t, hok, ht, hinserted i t hinsert⟩
  have herased : ∀ i (t : Polling ι), t.attached = s.attached.erase i →
      ∀ j ≠ i, (j ∈ t.attached ↔ j ∈ s.attached) := by
    intro i t herase j hj
    rw [herase, Finset.mem_erase]
    exact and_iff_right hj
  cases op with
  | enableReadEvent i =>
    obtain ⟨t, hok, ht, hinsert⟩ := h.enableReadEvent i
    exact ⟨t, hok, ht, hinserted i t hinsert⟩
  | disableReadEvent i =>
    simp only [Op.run, Polling.disableReadEvent]
    split
    · exact ⟨s, rfl, h, fun _ _ => Iff.rfl⟩
    · rename_i hreading
      refine hregister i _ (h.masked i).disableReadEvent ?_
      rw [PollableFileDescriptor.disableReadEvent_isDetached]
      exact (s.descriptors i).pollable.reading_attached (by simpa using hreading)
  | enableWriteEvent i =>
    simp only [Op.run, Polling.enableWriteEvent]
    split
    · exact ⟨s, rfl, h, fun _ _ => Iff.rfl⟩
    · exact hregister i _ (h.masked i).enableWriteEvent (by simp)
  | disableWriteEvent i =>
    simp only [Op.run, Polling.disableWriteEvent]
    split
    · exact ⟨s, rfl, h, fun _ _ => Iff.rfl⟩
    · rename_i hwriting
      refine hregister i _ (h.masked i).disableWriteEvent ?_
      rw [PollableFileDescriptor.disableWriteEvent_isDetached]
      exact (s.descriptors i).pollable.writing_attached (by simpa using hwriting)
  | detachFromPoller i =>
    obtain ⟨t, hok, ht, herase, _⟩ := h.detachFromPoller i
    exact ⟨t, hok, ht, herased i t herase⟩
  | resetTo i newFd =>
    obtain ⟨t, hok, ht, herase⟩ := h.resetTo i hdistinct
    exact ⟨t, hok, ht, herased i t herase⟩

omit [DecidableEq ι] in
theorem consistent_initial {fds : ι → Nat} (hfds : fds.Injective) (preferEt : ι → Bool) :
    Consistent preferEt (initial fds preferEt) ∧ (initial fds preferEt).attached = ∅ := by
  have hnone : (initial fds preferEt).attached = ∅ :=
    Finset.filter_eq_empty_iff.mpr fun i _ => (Bool.false_ne_true ·.symm)
  refine ⟨⟨hfds, fun i => PollableFileDescriptor.masked_new _, fun _ => rfl, fun i hi => ?_,
    fun _ _ => rfl, ?_⟩, hnone⟩
  · rw [hnone] at hi
    exact absurd hi (Finset.notMem_empty i)
  · rw [hnone]
    rfl

theorem Consistent.start (h : Consistent preferEt s) (own : List ι) :
    ∃ t, s.start own = .ok t ∧ Consistent preferEt t ∧
      ∀ i, i ∈ t.attached ↔ i ∈ own ∨ i ∈ s.attached := by
  induction own generalizing s with
  | nil => exact ⟨s, rfl, h, fun i => by simp⟩
  | cons i own ih =>
    obtain ⟨u, hok, hu, hinsert⟩ := h.enableReadEvent i
    obtain ⟨t, hrest, ht, hattached⟩ := ih hu
    refine ⟨t, ?_, ht, fun j => ?_⟩
    · rw [Polling.start, List.foldlM_cons, hok]
      exact hrest
    · rw [hattached, hinsert, Finset.mem_insert, List.mem_cons]
      tauto

end Steps

/-- What the poller and the kernel know of the descriptors. -/
structure Registered (preferEt : ι → Bool) (s : Polling ι) : Prop where
  listening : ∀ i, s.poller.fdsThatAreListeningOn (s.descriptors i).fd = true ↔
    (s.descriptors i).pollable.isDetached = false
  nothingElse : ∀ fd, (∀ i, (s.descriptors i).fd ≠ fd) → s.poller.fdsThatAreListeningOn fd = false
  size : s.poller.size = s.attached.card
  watched : ∀ i, s.poller.watched (s.descriptors i).fd =
    if (s.descriptors i).pollable.isDetached then none
    else some (mask (initialFlags (preferEt i)) (s.descriptors i).pollable.isReading
      (s.descriptors i).pollable.isWriting)

theorem Consistent.registered (h : Consistent preferEt s) : Registered preferEt s where
  listening i := by rw [h.agrees, h.isSome_watched, mem_attached]
  nothingElse fd hfd := by
    rw [h.agrees, h.absent fd fun i _ => hfd i]
    rfl
  size := h.size
  watched i := by
    cases hd : (s.descriptors i).pollable.isDetached with
    | true =>
      have hnone := (h.isSome_watched i).not.mpr (by rw [mem_attached, hd]; decide)
      simpa using hnone
    | false => rw [h.present i (mem_attached.mpr hd), (h.masked i).events]; rfl

/-- The loop's own descriptors stay attached, so that the counter shows whether others are. -/
theorem Consistent.exits_iff [DecidableEq ι] (h : Consistent preferEt s) {own : List ι}
    (hown : own.Nodup) (hattached : ∀ i ∈ own, i ∈ s.attached) {n : Nat}
    (hn : own.length = 1 + n) :
    s.exits n = true ↔ ∀ i, (s.descriptors i).pollable.isDetached = false ↔ i ∈ own := by
  have hsubset : own.toFinset ⊆ s.attached := fun i hi => hattached i (List.mem_toFinset.mp hi)
  have hcard : own.toFinset.card = 1 + n := by rw [List.toFinset_card_of_nodup hown, hn]
  rw [exits, beq_iff_eq, h.size]
  constructor
  · intro hsize i
    have heq := Finset.eq_of_subset_of_card_le hsubset (by omega)
    rw [← mem_attached, ← heq, List.mem_toFinset]
  · intro hiff
    have heq : s.attached = own.toFinset := by
      ext i
      rw [mem_attached, hiff, List.mem_toFinset]
    rw [heq, hcard]

/-- In every state of a loop that has the descriptors `own` for itself, the poller and the kernel
know the flags; no call asks the kernel for what it refuses; and the loop exits where it is left
with its own descriptors. -/
theorem registered_of_reaches [DecidableEq ι] {fds : ι → Nat} (hfds : fds.Injective)
    (preferEt : ι → Bool) {own : List ι} (hown : own.Nodup) :
    ∃ started, (initial fds preferEt).start own = .ok started ∧
      ∀ s, Reaches (Step own) started s →
        Registered preferEt s ∧
        (∀ op : Op ι, op.descriptor ∉ own → op.Distinct s → ∃ t, op.run s = .ok t) ∧
        ∀ n, own.length = 1 + n →
          (s.exits n = true ↔ ∀ i, (s.descriptors i).pollable.isDetached = false ↔ i ∈ own) := by
  obtain ⟨hinitial, _⟩ := consistent_initial hfds preferEt
  obtain ⟨started, hok, hstarted, hattached⟩ := hinitial.start own
  refine ⟨started, hok, fun s hreaches => ?_⟩
  have hstart : Consistent preferEt started ∧ ∀ i ∈ own, i ∈ started.attached :=
    ⟨hstarted, fun i hi => (hattached i).mpr (.inl hi)⟩
  obtain ⟨hs, hmine⟩ := Reaches.invariant
    (I := fun s => Consistent preferEt s ∧ ∀ i ∈ own, i ∈ s.attached) hreaches hstart
    fun a b ha hstep => by
      obtain ⟨op, hother, hdistinct, hrun⟩ := hstep
      obtain ⟨t, hok, ht, hsame⟩ := ha.1.run op hdistinct
      rw [hrun, Except.ok.injEq] at hok
      subst hok
      exact ⟨ht, fun i hi => (hsame i fun heq => hother (heq ▸ hi)).mpr (ha.2 i hi)⟩
  refine ⟨hs.registered, fun op _ hdistinct => ?_, fun n hn => hs.exits_iff hown hmine hn⟩
  obtain ⟨t, hok, _⟩ := hs.run op hdistinct
  exact ⟨t, hok⟩

/-- A loop with an eventfd and a timerfd, and a third descriptor that writes, is reset and
reads. -/
theorem registered_of_reaches_three : ∃ s : Polling (Fin 3), Registered (fun _ => true) s ∧
    s.poller.watched 9 = some (mask epollEt true false) ∧
    (s.exits 1 = true ↔ ∀ i, (s.descriptors i).pollable.isDetached = false ↔ i ∈ [0, 1]) := by
  have hfds : Function.Injective fun i : Fin 3 => i.val + 5 :=
    fun a b hab => Fin.ext (Nat.add_right_cancel hab)
  have hown : [(0 : Fin 3), 1].Nodup := by decide
  obtain ⟨started, hok, hruns⟩ := registered_of_reaches hfds (fun _ => true) hown
  have hstarted := Except.ok.inj (hok.symm.trans (rfl : (initial (fun i : Fin 3 => i.val + 5)
    (fun _ => true)).start [0, 1] = .ok _))
  subst hstarted
  have hfree : ∀ s : Polling (Fin 3), (∀ j, (s.descriptors j).fd ≠ 9) →
      (Op.resetTo (2 : Fin 3) 9).Distinct s := fun _ => id
  obtain ⟨hregistered, _, hexits⟩ := hruns _ (.tail (.tail (.single
    ⟨.enableWriteEvent 2, by decide, trivial, rfl⟩)
    ⟨.resetTo 2 9, by decide, hfree _ (by decide), rfl⟩)
    ⟨.enableReadEvent 2, by decide, trivial, rfl⟩)
  exact ⟨_, hregistered, hregistered.watched 2, hexits 1 rfl⟩

end Polling

end XubinhServer

import Mathlib.Data.List.Sort
import Mathlib.Tactic.Common

/-! The timers of an event loop: the container that orders them, the timerfd, and the
operations that keep the alarm behind `_next_earliest_expiration_time`. -/
namespace XubinhServer

/-- Time points are nanoseconds from the epoch. -/
def TimePoint.FOREVER : Int := 0x7ffffffffffffffe

structure Timer where
  address : Nat
  expirationTimePoint : Int
  /-- 0 for a one-off timer -/
  repetitionTimeInterval : Int
  /-- -1 for infinite repetition -/
  numberOfRepetitionsLeft : Int
  deriving DecidableEq, Repr

namespace Timer

def new (address : Nat) (expirationTimePoint : Int)
    (repetitionTimeInterval numberOfRepetitionsLeft : Int) : Timer where
  address := address
  expirationTimePoint := expirationTimePoint
  repetitionTimeInterval := max 0 repetitionTimeInterval
  numberOfRepetitionsLeft := max (-1) numberOfRepetitionsLeft

/-- What `expire_once` does after the callback; `none` where it returns `false`. -/
def afterCallback (timer : Timer) : Option Timer :=
  if timer.repetitionTimeInterval = 0 ∨ timer.numberOfRepetitionsLeft = 0 then none
  else some { timer with
    expirationTimePoint := timer.expirationTimePoint + timer.repetitionTimeInterval
    numberOfRepetitionsLeft :=
      if timer.numberOfRepetitionsLeft > 0 then timer.numberOfRepetitionsLeft - 1
      else timer.numberOfRepetitionsLeft }

theorem address_of_afterCallback {timer next : Timer} (h : timer.afterCallback = some next) :
    next.address = timer.address := by
  rw [afterCallback] at h
  split at h
  · cases h
  · cases h
    rfl

/-- The order of the pairs of an expiration time point and an address. -/
def Le (a b : Timer) : Prop :=
  a.expirationTimePoint < b.expirationTimePoint ∨
    a.expirationTimePoint = b.expirationTimePoint ∧ a.address ≤ b.address

instance : DecidableRel Le := fun a b =>
  inferInstanceAs (Decidable (a.expirationTimePoint < b.expirationTimePoint ∨
    a.expirationTimePoint = b.expirationTimePoint ∧ a.address ≤ b.address))

instance : Std.Total Le := ⟨fun a b => by simp only [Le]; omega⟩

instance : IsTrans Timer Le := ⟨fun a b c => by simp only [Le]; omega⟩

theorem Le.expirationTimePoint_le {a b : Timer} (h : Le a b) :
    a.expirationTimePoint ≤ b.expirationTimePoint := by
  cases h with
  | inl hlt => exact le_of_lt hlt
  | inr heq => exact le_of_eq heq.1

end Timer

/-- The set of timers, which a timer's expiration time point changes only outside of. -/
structure TimerContainer where
  timers : List Timer
  sorted : timers.Pairwise Timer.Le

namespace TimerContainer

def empty : TimerContainer := ⟨[], .nil⟩

def getEarliestExpirationTimePoint (c : TimerContainer) : Int :=
  match c.timers with
  | [] => TimePoint.FOREVER
  | timer :: _ => timer.expirationTimePoint

/-- No two timers live at one address, so that the set never has the pair already. -/
def insertOne (c : TimerContainer) (timer : Timer) : TimerContainer :=
  ⟨c.timers.orderedInsert Timer.Le timer, c.sorted.orderedInsert timer _⟩

def insertAll (c : TimerContainer) (timers : List Timer) : TimerContainer :=
  timers.foldl insertOne c

/-- The container without the timer at `address`, if it is there. -/
def removeOne (c : TimerContainer) (address : Nat) : Option TimerContainer :=
  if c.timers.any (·.address = address) then
    some ⟨c.timers.filter (·.address ≠ address), c.sorted.filter _⟩
  else none

def moveOutBeforeOrAt (c : TimerContainer) (timePoint : Int) :
    List Timer × TimerContainer :=
  (c.timers.takeWhile (·.expirationTimePoint ≤ timePoint),
    ⟨c.timers.dropWhile (·.expirationTimePoint ≤ timePoint),
      c.sorted.sublist (List.dropWhile_sublist _)⟩)

variable {c d : TimerContainer} {timer τ : Timer} {timers : List Timer} {timePoint : Int}

@[simp] theorem mem_insertOne : τ ∈ (c.insertOne timer).timers ↔ τ = timer ∨ τ ∈ c.timers :=
  List.mem_orderedInsert _

@[simp] theorem mem_insertAll :
    τ ∈ (c.insertAll timers).timers ↔ τ ∈ timers ∨ τ ∈ c.timers := by
  induction timers generalizing c with
  | nil => simp [insertAll]
  | cons timer timers ih =>
    rw [insertAll, List.foldl_cons, ← insertAll, ih, mem_insertOne, List.mem_cons]
    tauto

theorem mem_of_removeOne {address : Nat} (h : c.removeOne address = some d) :
    τ ∈ d.timers ↔ τ ∈ c.timers ∧ τ.address ≠ address := by
  rw [removeOne] at h
  split at h
  · cases h
    simp
  · cases h

theorem address_ne_of_removeOne {address : Nat} (h : c.removeOne address = none)
    (hτ : τ ∈ c.timers) : τ.address ≠ address := by
  rw [removeOne] at h
  split at h
  · cases h
  · rename_i hany
    simp only [List.any_eq_true, decide_eq_true_eq, not_exists, not_and] at hany
    exact hany τ hτ

theorem earliest_le (hτ : τ ∈ c.timers) :
    c.getEarliestExpirationTimePoint ≤ τ.expirationTimePoint := by
  obtain ⟨timers, hsorted⟩ := c
  cases timers with
  | nil => cases hτ
  | cons head rest =>
    cases hτ with
    | head => exact le_refl _
    | tail _ hrest => exact (List.rel_of_pairwise_cons hsorted hrest).expirationTimePoint_le

theorem exists_earliest (h : c.timers ≠ []) :
    ∃ τ ∈ c.timers, c.getEarliestExpirationTimePoint = τ.expirationTimePoint := by
  obtain ⟨timers, hsorted⟩ := c
  cases timers with
  | nil => exact absurd rfl h
  | cons head rest => exact ⟨head, List.mem_cons_self, rfl⟩

/-- The set is divided at the first timer that expires after the time point. -/
theorem mem_moveOut_snd (hτ : τ ∈ (c.moveOutBeforeOrAt timePoint).2.timers) :
    τ ∈ c.timers ∧ timePoint < τ.expirationTimePoint := by
  obtain ⟨timers, hsorted⟩ := c
  induction timers with
  | nil => cases hτ
  | cons head rest ih =>
    simp only [moveOutBeforeOrAt] at hτ ih ⊢
    by_cases hhead : head.expirationTimePoint ≤ timePoint
    · rw [List.dropWhile_cons_of_pos (by simpa using hhead)] at hτ
      obtain ⟨hmem, hlt⟩ := ih hsorted.of_cons hτ
      exact ⟨List.mem_cons_of_mem _ hmem, hlt⟩
    · rw [List.dropWhile_cons_of_neg (by simpa using hhead)] at hτ
      refine ⟨hτ, ?_⟩
      have hle := @earliest_le ⟨head :: rest, hsorted⟩ τ hτ
      simp only [getEarliestExpirationTimePoint] at hle
      omega

theorem mem_moveOut_fst (hτ : τ ∈ (c.moveOutBeforeOrAt timePoint).1) : τ ∈ c.timers :=
  (List.takeWhile_sublist _).subset hτ

end TimerContainer

/-- A one-shot alarm: set at a time point, or gone off there and not read yet. -/
inductive Timerfd where
  | disarmed
  | armed (timePoint : Int)
  | fired (timePoint : Int)
  deriving DecidableEq, Repr

/-- A time of zero disarms the timer. The kernel refuses a negative one. -/
def Timerfd.setAlarmAtTimePoint (timePoint : Int) : Timerfd :=
  if timePoint = 0 then .disarmed else .armed timePoint

namespace EventLoop

/-- The timers of a loop and its alarm. -/
structure Timers where
  timerContainer : TimerContainer
  timerfd : Timerfd
  timerfdTriggered : Bool
  nextEarliestExpirationTime : Int

namespace Timers

def initial : Timers where
  timerContainer := .empty
  timerfd := .disarmed
  timerfdTriggered := false
  nextEarliestExpirationTime := TimePoint.FOREVER

@[simps]
def setAlarmAtTimePoint (s : Timers) (timePoint : Int) : Timers := { s with
  timerfd := .setAlarmAtTimePoint timePoint
  nextEarliestExpirationTime := timePoint }

/-- The alarm after insertions: advanced where a timer is due more than the threshold before
it. -/
def advanceAlarm (alarmAdvancingThreshold : Int) (s : Timers) : Timers :=
  let earliest := s.timerContainer.getEarliestExpirationTimePoint
  if earliest < s.nextEarliestExpirationTime - alarmAdvancingThreshold then
    s.setAlarmAtTimePoint earliest
  else s

/-- The alarm after removals: cancelled or delayed. -/
def delayAlarm (s : Timers) : Timers :=
  if s.timerContainer.timers = [] then
    { s with timerfd := .disarmed, nextEarliestExpirationTime := TimePoint.FOREVER }
  else
    let earliest := s.timerContainer.getEarliestExpirationTimePoint
    if s.nextEarliestExpirationTime < earliest then s.setAlarmAtTimePoint earliest else s

def addATimerAndUpdateAlarm (alarmAdvancingThreshold : Int) (s : Timers) (timer : Timer) :
    Timers :=
  advanceAlarm alarmAdvancingThreshold
    { s with timerContainer := s.timerContainer.insertOne timer }

/-- The timer might be expired already. -/
def cancelATimerAndUpdateAlarm (s : Timers) (address : Nat) : Timers :=
  match s.timerContainer.removeOne address with
  | none => s
  | some timerContainer => delayAlarm { s with timerContainer := timerContainer }

/-- The first part of `_expire_timers_and_update_alarm`: the timers to expire. -/
def moveOutExpiredTimers (s : Timers) (timePoint : Int) : List Timer × Timers :=
  let (expiredTimers, timerContainer) := s.timerContainer.moveOutBeforeOrAt timePoint
  (expiredTimers, delayAlarm { s with timerContainer := timerContainer })

/-- The last part of `_expire_timers_and_update_alarm`. -/
def insertValidTimers (alarmAdvancingThreshold : Int) (s : Timers)
    (timersThatAreStillValid : List Timer) : Timers :=
  if timersThatAreStillValid = [] then s
  else advanceAlarm alarmAdvancingThreshold
    { s with timerContainer := s.timerContainer.insertAll timersThatAreStillValid }

variable {θ : Int} {s : Timers} {timer : Timer} {timers : List Timer} {address : Nat}

@[simp] theorem timerContainer_advanceAlarm :
    (s.advanceAlarm θ).timerContainer = s.timerContainer := by
  simp only [advanceAlarm]
  split <;> rfl

@[simp] theorem timerContainer_delayAlarm : s.delayAlarm.timerContainer = s.timerContainer := by
  simp only [delayAlarm]
  split
  · rfl
  · split <;> rfl

@[simp] theorem mem_addATimer {τ : Timer} :
    τ ∈ (s.addATimerAndUpdateAlarm θ timer).timerContainer.timers ↔
      τ = timer ∨ τ ∈ s.timerContainer.timers := by
  simp [addATimerAndUpdateAlarm]

theorem mem_cancelATimer {τ : Timer} :
    τ ∈ (s.cancelATimerAndUpdateAlarm address).timerContainer.timers ↔
      τ ∈ s.timerContainer.timers ∧ τ.address ≠ address := by
  rw [cancelATimerAndUpdateAlarm]
  cases h : s.timerContainer.removeOne address with
  | none =>
    simp only [iff_self_and]
    exact TimerContainer.address_ne_of_removeOne h
  | some c =>
    simp only [timerContainer_delayAlarm]
    exact TimerContainer.mem_of_removeOne h

@[simp] theorem mem_insertValidTimers {τ : Timer} :
    τ ∈ (s.insertValidTimers θ timers).timerContainer.timers ↔
      τ ∈ timers ∨ τ ∈ s.timerContainer.timers := by
  rw [insertValidTimers]
  split
  · rename_i hnil
    simp [hnil]
  · simp

end Timers

end EventLoop

end XubinhServer

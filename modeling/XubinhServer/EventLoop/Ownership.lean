import Mathlib.Data.List.Perm.Basic
import Mathlib.Data.List.TakeWhile
import XubinhServer.EventLoop.Turns

/-! Who owns the timer objects of an event loop: the functor that adds it, the container, a pass
of `_expire_timers_and_update_alarm`, or nobody. Every read through a pointer and every `delete`
looks whether the object is alive. -/
namespace XubinhServer.EventLoop

open Transition

inductive Fault where
  | readAfterDelete (address : Nat)
  | deletedTwice (address : Nat)
  deriving DecidableEq, Repr

/-- The timers of a loop, and the objects that exist. -/
structure Memory where
  timers : Timers
  /-- the passes that have begun, the innermost first -/
  passes : List Pass
  live : List Nat
  /-- created, and left to a functor that has not run -/
  created : List Timer
  /-- what `run_at_time_point` has returned -/
  identifiers : List Nat
  destroyed : Bool
  fault : Option Fault

def Pass.timers (pass : Pass) : List Timer :=
  pass.running.toList ++ pass.expiredTimers ++ pass.timersThatAreStillValid

namespace Memory

/-- A read through a pointer. -/
def readTimer (s : Memory) (address : Nat) : Memory :=
  if address ∈ s.live then s else { s with fault := some (.readAfterDelete address) }

def deleteTimer (s : Memory) (address : Nat) : Memory :=
  if address ∈ s.live then { s with live := s.live.erase address }
  else { s with fault := some (.deletedTwice address) }

def createTimer (s : Memory) (timer : Timer) : Memory := { s with
  live := timer.address :: s.live
  created := timer :: s.created
  identifiers := timer.address :: s.identifiers }

/-- `_add_a_timer_and_update_alarm`. -/
def addATimer (θ : Int) (s : Memory) (timer : Timer) : Memory :=
  let s := s.readTimer timer.address
  { s with
    timers := s.timers.addATimerAndUpdateAlarm θ timer
    created := s.created.erase timer }

/-- `_cancel_a_timer_and_update_alarm`. Where no timers are left it returns early. -/
def cancelATimer (s : Memory) (address : Nat) : Memory :=
  let s := s.readTimer address
  match s.timers.timerContainer.removeOne address with
  | none => s
  | some timerContainer =>
    let s := { s with timers := s.timers.cancelATimerAndUpdateAlarm address }
    if timerContainer.timers = [] then s else s.deleteTimer address

def beginPass (s : Memory) (caller : Caller) (timePoint : Int) : Memory :=
  let (expiredTimers, timers) := s.timers.moveOutExpiredTimers timePoint
  { s with
    timers := timers
    passes := ⟨caller, timePoint, none, expiredTimers, []⟩ :: s.passes }

/-- The callback of `timer` runs. -/
def start (s : Memory) (pass : Pass) (passes : List Pass) (timer : Timer) : Memory :=
  { s.readTimer timer.address with passes := { pass with running := some timer } :: passes }

/-- `expire_until` after a callback. -/
def afterCallback (s : Memory) (pass : Pass) (passes : List Pass) (timer : Timer) : Memory :=
  let s := s.readTimer timer.address
  match timer.afterCallback with
  | none => { s.deleteTimer timer.address with passes := { pass with running := none } :: passes }
  | some next =>
    if next.expirationTimePoint > pass.timePoint then
      { s with passes := { pass with
          running := none
          timersThatAreStillValid := pass.timersThatAreStillValid ++ [next] } :: passes }
    else s.start pass passes next

def readAll (s : Memory) (timers : List Timer) : Memory :=
  timers.foldl (fun s timer => s.readTimer timer.address) s

def endPass (θ : Int) (s : Memory) (pass : Pass) (passes : List Pass) : Memory :=
  let s := s.readAll pass.timersThatAreStillValid
  { s with
    timers := s.timers.insertValidTimers θ pass.timersThatAreStillValid
    passes := passes }

/-- The destructor with `_release_all_timers`. -/
def destroy (s : Memory) : Memory :=
  let (allTimers, timerContainer) :=
    s.timers.timerContainer.moveOutBeforeOrAt TimePoint.FOREVER
  let s := allTimers.foldl (fun s timer => s.deleteTimer timer.address)
    { s with timers.timerContainer := timerContainer }
  { s with destroyed := true }

/-- The constructor adds a timer of its own, whose identifier it drops. -/
def initial (θ clock : Int) : Memory :=
  let timer := Timer.new 0 (clock + 3000000000) 3000000000 (-1)
  { timers := Timers.initial.addATimerAndUpdateAlarm θ timer
    passes := []
    live := [0]
    created := []
    identifiers := []
    destroyed := false
    fault := none }

/-- The loop thread is in an event callback, a functor or a timer callback. -/
def InUserCode (s : Memory) : Prop :=
  match s.passes with
  | [] => True
  | pass :: _ => pass.running.isSome

/-- One step of the loop thread, with timers that may take the addresses of deleted ones. -/
inductive Move (θ : Int) (mayCancel : Memory → Nat → Prop) (mayDestroy : Memory → Prop) :
    Memory → Memory → Prop
  | create {s} (address : Nat) (timePoint interval repetitions : Int)
      (hfresh : address ∉ s.live) :
      Move θ mayCancel mayDestroy s
        (s.createTimer (.new address timePoint interval repetitions))
  | add {s} (timer : Timer) (hcode : s.InUserCode) (hcreated : timer ∈ s.created) :
      Move θ mayCancel mayDestroy s (s.addATimer θ timer)
  | cancel {s} (address : Nat) (hcode : s.InUserCode) (hidentifier : address ∈ s.identifiers)
      (hmay : mayCancel s address) :
      Move θ mayCancel mayDestroy s (s.cancelATimer address)
  | beginPass {s} (caller : Caller) (timePoint : Int) (hcode : s.InUserCode) :
      Move θ mayCancel mayDestroy s (s.beginPass caller timePoint)
  | start {s} (pass : Pass) (passes : List Pass) (timer : Timer) (rest : List Timer)
      (hpasses : s.passes = pass :: passes) (hrunning : pass.running = none)
      (hexpired : pass.expiredTimers = timer :: rest) :
      Move θ mayCancel mayDestroy s (s.start { pass with expiredTimers := rest } passes timer)
  | afterCallback {s} (pass : Pass) (passes : List Pass) (timer : Timer)
      (hpasses : s.passes = pass :: passes) (hrunning : pass.running = some timer) :
      Move θ mayCancel mayDestroy s (s.afterCallback pass passes timer)
  | endPass {s} (pass : Pass) (passes : List Pass) (hpasses : s.passes = pass :: passes)
      (hrunning : pass.running = none) (hexpired : pass.expiredTimers = []) :
      Move θ mayCancel mayDestroy s (s.endPass θ pass passes)
  | destroy {s} (hpasses : s.passes = []) (hmay : mayDestroy s) :
      Move θ mayCancel mayDestroy s s.destroy

/-- A step while the loop exists and nothing has gone wrong. -/
def Step (θ : Int) (mayCancel : Memory → Nat → Prop) (mayDestroy : Memory → Prop)
    (s t : Memory) : Prop :=
  s.destroyed = false ∧ s.fault = none ∧ Move θ mayCancel mayDestroy s t

/-- The timers that somebody is going to delete. -/
def owned (s : Memory) : List Timer :=
  s.timers.timerContainer.timers ++ s.passes.flatMap Pass.timers ++ s.created

/-- Every object that exists has exactly one owner. -/
structure Owned (s : Memory) : Prop where
  perm : (s.owned.map Timer.address).Perm s.live
  nodup : s.live.Nodup
  fault : s.fault = none
  exists_loop : s.destroyed = false

/-- The timer exists, and it is not the only one in the container. -/
def CancelsAnother (s : Memory) (address : Nat) : Prop :=
  address ∈ s.live ∧ s.timers.timerContainer.timers.map Timer.address ≠ [address]

/-- Every timer is due at some time. -/
def AllDue (s : Memory) : Prop :=
  ∀ timer ∈ s.timers.timerContainer.timers, timer.expirationTimePoint ≤ TimePoint.FOREVER

end Memory

end XubinhServer.EventLoop

namespace XubinhServer

open Transition

namespace TimerContainer

variable {c d : TimerContainer} {timer : Timer} {timers : List Timer} {address : Nat}

theorem perm_insertOne : (c.insertOne timer).timers.Perm (timer :: c.timers) :=
  List.perm_orderedInsert _ _ _

theorem perm_insertAll : (c.insertAll timers).timers.Perm (timers ++ c.timers) := by
  induction timers generalizing c with
  | nil => exact .refl _
  | cons timer timers ih =>
    rw [insertAll, List.foldl_cons, ← insertAll]
    exact ih.trans ((perm_insertOne.append_left timers).trans List.perm_middle)

theorem perm_removeOne (h : c.removeOne address = some d)
    (hnodup : (c.timers.map Timer.address).Nodup) :
    (c.timers.map Timer.address).Perm (address :: d.timers.map Timer.address) := by
  have hmem : address ∈ c.timers.map Timer.address := by
    by_contra hnot
    rw [removeOne, if_neg] at h
    · cases h
    · simpa using hnot
  have herase : d.timers.map Timer.address = (c.timers.map Timer.address).erase address := by
    rw [hnodup.erase_eq_filter, List.filter_map]
    rw [removeOne] at h
    split at h
    · cases h
      congr 1
      apply List.filter_congr
      intro timer _
      by_cases heq : timer.address = address
      · simp [heq]
      · simp [heq]
    · cases h
  rw [herase]
  exact List.perm_cons_erase hmem

theorem moveOut_append (timePoint : Int) :
    (c.moveOutBeforeOrAt timePoint).1 ++ (c.moveOutBeforeOrAt timePoint).2.timers = c.timers :=
  List.takeWhile_append_dropWhile

end TimerContainer

namespace EventLoop

namespace Timers

variable {θ : Int} {s : Timers} {timer : Timer} {timers : List Timer}

theorem perm_addATimer : (s.addATimerAndUpdateAlarm θ timer).timerContainer.timers.Perm
    (timer :: s.timerContainer.timers) := by
  rw [addATimerAndUpdateAlarm, timerContainer_advanceAlarm]
  exact TimerContainer.perm_insertOne

theorem perm_insertValidTimers : (s.insertValidTimers θ timers).timerContainer.timers.Perm
    (timers ++ s.timerContainer.timers) := by
  rw [insertValidTimers]
  split
  · rename_i hnil
    rw [hnil]
    exact .refl _
  · rw [timerContainer_advanceAlarm]
    exact TimerContainer.perm_insertAll

end Timers

namespace Memory

section Step

variable {θ : Int} {s t : Memory} {address : Nat} {timer : Timer}

theorem readTimer_of_live (h : address ∈ s.live) : s.readTimer address = s := if_pos h

theorem deleteTimer_of_live (h : address ∈ s.live) :
    s.deleteTimer address = { s with live := s.live.erase address } := if_pos h

theorem readAll_of_live {timers : List Timer} (h : ∀ timer ∈ timers, timer.address ∈ s.live) :
    s.readAll timers = s := by
  induction timers with
  | nil => rfl
  | cons timer timers ih =>
    rw [readAll, List.foldl_cons, readTimer_of_live (h timer List.mem_cons_self), ← readAll]
    exact ih fun timer hmem => h timer (List.mem_cons_of_mem _ hmem)

theorem Owned.live (h : Owned s) (hmem : timer ∈ s.owned) : timer.address ∈ s.live :=
  h.perm.mem_iff.mp (List.mem_map_of_mem hmem)

/-- A timer that changes hands. -/
theorem Owned.of_perm (h : Owned s)
    (hperm : (t.owned.map Timer.address).Perm (s.owned.map Timer.address))
    (hlive : t.live = s.live) (hfault : t.fault = s.fault)
    (hdestroyed : t.destroyed = s.destroyed) : Owned t where
  perm := by
    rw [hlive]
    exact hperm.trans h.perm
  nodup := hlive ▸ h.nodup
  fault := hfault.trans h.fault
  exists_loop := hdestroyed.trans h.exists_loop

/-- A timer that its owner deletes. -/
theorem Owned.of_erase (h : Owned s)
    (hperm : (s.owned.map Timer.address).Perm (address :: t.owned.map Timer.address))
    (hlive : t.live = s.live.erase address) (hfault : t.fault = s.fault)
    (hdestroyed : t.destroyed = s.destroyed) : Owned t where
  perm := by
    have hcons : (address :: t.owned.map Timer.address).Perm s.live := hperm.symm.trans h.perm
    rw [hlive]
    exact (List.cons_perm_iff_perm_erase.mp hcons).2
  nodup := hlive ▸ h.nodup.erase address
  fault := hfault.trans h.fault
  exists_loop := hdestroyed.trans h.exists_loop

theorem Owned.createTimer (h : Owned s) (hfresh : timer.address ∉ s.live) :
    Owned (s.createTimer timer) where
  perm := by
    have hmiddle : ((s.createTimer timer).owned.map Timer.address).Perm
        (timer.address :: s.owned.map Timer.address) := by
      simp only [owned, Memory.createTimer, List.map_append, List.map_cons]
      exact List.perm_middle
    exact hmiddle.trans (h.perm.cons _)
  nodup := List.nodup_cons.mpr ⟨hfresh, h.nodup⟩
  fault := h.fault
  exists_loop := h.exists_loop

theorem Owned.addATimer (h : Owned s) (hcreated : timer ∈ s.created) :
    Owned (s.addATimer θ timer) := by
  have hmem : timer ∈ s.owned := List.mem_append_right _ hcreated
  have hperm : (s.addATimer θ timer).owned.Perm s.owned := by
    simp only [owned, Memory.addATimer, readTimer_of_live (h.live hmem)]
    have hmiddle : (timer :: s.timers.timerContainer.timers ++ s.passes.flatMap Pass.timers ++
        s.created.erase timer).Perm (s.timers.timerContainer.timers ++
          s.passes.flatMap Pass.timers ++ timer :: s.created.erase timer) :=
      List.perm_middle.symm
    have herase := List.perm_cons_erase hcreated
    exact ((Timers.perm_addATimer.append_right _).append_right _).trans
      (hmiddle.trans (herase.symm.append_left _))
  apply h.of_perm (hperm.map _)
  · simp only [Memory.addATimer, readTimer_of_live (h.live hmem)]
  · simp only [Memory.addATimer, readTimer_of_live (h.live hmem)]
  · simp only [Memory.addATimer, readTimer_of_live (h.live hmem)]

theorem Owned.nodup_container (h : Owned s) :
    (s.timers.timerContainer.timers.map Timer.address).Nodup := by
  have hnodup := h.perm.nodup_iff.mpr h.nodup
  simp only [owned, List.map_append] at hnodup
  exact (List.nodup_append.mp (List.nodup_append.mp hnodup).1).1

theorem Owned.cancelATimer (h : Owned s) (hcancel : CancelsAnother s address) :
    Owned (s.cancelATimer address) := by
  obtain ⟨hlive, hother⟩ := hcancel
  simp only [Memory.cancelATimer, readTimer_of_live hlive]
  cases hc : s.timers.timerContainer.removeOne address with
  | none => exact h
  | some c =>
    have hperm := TimerContainer.perm_removeOne hc h.nodup_container
    have hne : c.timers ≠ [] := by
      intro hnil
      rw [hnil, List.map_nil, List.perm_singleton] at hperm
      exact hother hperm
    have htimers : (s.timers.cancelATimerAndUpdateAlarm address).timerContainer = c := by
      rw [Timers.cancelATimerAndUpdateAlarm, hc, Timers.timerContainer_delayAlarm]
    simp only [if_neg hne, deleteTimer, if_pos hlive]
    refine h.of_erase ?_ rfl rfl rfl
    simp only [owned, htimers, List.map_append, List.append_assoc]
    exact hperm.append_right _

theorem Owned.beginPass (h : Owned s) (caller : Caller) (timePoint : Int) :
    Owned (s.beginPass caller timePoint) := by
  refine h.of_perm (List.Perm.map _ ?_) rfl rfl rfl
  have happend := s.timers.timerContainer.moveOut_append timePoint
  simp only [owned, Memory.beginPass, Timers.moveOutExpiredTimers, Timers.timerContainer_delayAlarm,
    List.flatMap_cons, Pass.timers, Option.toList_none, List.nil_append, List.append_nil]
  rw [← happend]
  simp only [← List.append_assoc]
  exact (List.perm_append_comm.append_right _).append_right _

/-- What the innermost pass holds may be held in another way. -/
theorem Owned.of_pass (h : Owned s) {pass pass' : Pass} {passes : List Pass}
    (hpasses : s.passes = pass :: passes) (ht : t.passes = pass' :: passes)
    (hperm : (pass'.timers.map Timer.address).Perm (pass.timers.map Timer.address))
    (htimers : t.timers = s.timers) (hcreated : t.created = s.created) (hlive : t.live = s.live)
    (hfault : t.fault = s.fault) (hdestroyed : t.destroyed = s.destroyed) : Owned t := by
  refine h.of_perm ?_ hlive hfault hdestroyed
  simp only [owned, ht, hpasses, htimers, hcreated, List.flatMap_cons, List.map_append]
  exact ((hperm.append_right _).append_left _).append_right _

theorem Owned.of_running (h : Owned s) {pass : Pass} {passes : List Pass}
    (hpasses : s.passes = pass :: passes) (hmem : timer ∈ pass.timers) :
    timer.address ∈ s.live := by
  apply h.live
  simp only [owned, hpasses, List.flatMap_cons]
  exact List.mem_append_left _ (List.mem_append_right _ (List.mem_append_left _ hmem))

theorem Owned.start (h : Owned s) {pass : Pass} {passes : List Pass} {rest : List Timer}
    (hpasses : s.passes = pass :: passes) (hrunning : pass.running = none)
    (hexpired : pass.expiredTimers = timer :: rest) :
    Owned (s.start { pass with expiredTimers := rest } passes timer) := by
  have hmem : timer ∈ pass.timers := by simp [Pass.timers, hexpired]
  rw [Memory.start, readTimer_of_live (h.of_running hpasses hmem)]
  refine h.of_pass hpasses rfl ?_ rfl rfl rfl rfl rfl
  simp [Pass.timers, hrunning, hexpired]

theorem Owned.afterCallback (h : Owned s) {pass : Pass} {passes : List Pass}
    (hpasses : s.passes = pass :: passes) (hrunning : pass.running = some timer) :
    Owned (s.afterCallback pass passes timer) := by
  have hmem : timer ∈ pass.timers := by simp [Pass.timers, hrunning]
  have hlive := h.of_running hpasses hmem
  simp only [Memory.afterCallback, readTimer_of_live hlive]
  cases hnext : timer.afterCallback with
  | none =>
    simp only [deleteTimer_of_live hlive]
    refine h.of_erase ?_ rfl rfl rfl
    simp only [owned, hpasses, List.flatMap_cons, Pass.timers, hrunning, Option.toList_some,
      Option.toList_none, List.nil_append, List.map_append, List.map_cons, List.cons_append,
      List.append_assoc]
    exact List.perm_middle
  | some next =>
    have haddress := Timer.address_of_afterCallback hnext
    simp only
    split
    · refine h.of_pass hpasses rfl ?_ rfl rfl rfl rfl rfl
      simp only [Pass.timers, hrunning, Option.toList_some, Option.toList_none, List.nil_append,
        List.map_append, List.map_cons, List.map_nil, haddress, List.cons_append,
        ← List.append_assoc]
      exact List.perm_append_singleton _ _
    · rw [Memory.start, readTimer_of_live (haddress ▸ hlive)]
      refine h.of_pass hpasses rfl ?_ rfl rfl rfl rfl rfl
      simp [Pass.timers, hrunning, haddress]

theorem Owned.endPass (h : Owned s) {pass : Pass} {passes : List Pass}
    (hpasses : s.passes = pass :: passes) (hrunning : pass.running = none)
    (hexpired : pass.expiredTimers = []) : Owned (s.endPass θ pass passes) := by
  have hread : s.readAll pass.timersThatAreStillValid = s := by
    apply readAll_of_live
    intro timer hmem
    exact h.of_running hpasses (List.mem_append_right _ hmem)
  rw [Memory.endPass, hread]
  refine h.of_perm (List.Perm.map _ ?_) rfl rfl rfl
  simp only [owned, hpasses, List.flatMap_cons, Pass.timers, hrunning, hexpired,
    Option.toList_none, List.nil_append, List.append_assoc]
  refine (Timers.perm_insertValidTimers.append_right _).trans ?_
  simp only [← List.append_assoc]
  exact (List.perm_append_comm.append_right _).append_right _

/-- The destructor deletes what the container holds. -/
theorem deleteAll_of_live {timers : List Timer} (hnodup : (timers.map Timer.address).Nodup)
    (h : ∀ timer ∈ timers, timer.address ∈ s.live) (hlive : s.live.Nodup) :
    (timers.foldl (fun s timer => s.deleteTimer timer.address) s).fault = s.fault ∧
      (timers.foldl (fun s timer => s.deleteTimer timer.address) s).created = s.created ∧
      ∀ a, a ∈ (timers.foldl (fun s timer => s.deleteTimer timer.address) s).live ↔
        a ∈ s.live ∧ a ∉ timers.map Timer.address := by
  induction timers generalizing s with
  | nil => simp
  | cons timer timers ih =>
    rw [List.map_cons, List.nodup_cons] at hnodup
    have hhead := h timer List.mem_cons_self
    rw [List.foldl_cons, deleteTimer_of_live hhead]
    have hrest : ∀ τ ∈ timers, τ.address ∈ s.live.erase timer.address := by
      intro τ hτ
      rw [hlive.mem_erase_iff]
      refine ⟨?_, h τ (List.mem_cons_of_mem _ hτ)⟩
      intro heq
      exact hnodup.1 (heq ▸ List.mem_map_of_mem hτ)
    obtain ⟨hfault, hcreated, hmem⟩ := 
      ih (s := { s with live := s.live.erase timer.address }) hnodup.2 hrest (hlive.erase _)
    refine ⟨hfault, hcreated, fun a => ?_⟩
    rw [hmem, hlive.mem_erase_iff, List.map_cons, List.mem_cons]
    tauto

/-- Nothing has gone wrong, and once the loop is destroyed only timers are left that it never
got. -/
structure Sound (s : Memory) : Prop where
  fault : s.fault = none
  owned : s.destroyed = false → Owned s
  released : s.destroyed = true → ∀ a ∈ s.live, a ∈ s.created.map Timer.address

theorem Owned.sound (h : Owned s) : Sound s where
  fault := h.fault
  owned _ := h
  released ht := absurd (ht.symm.trans h.exists_loop) (by decide)

theorem Owned.destroy (h : Owned s) (hpasses : s.passes = []) (hdue : AllDue s) :
    Sound s.destroy := by
  have hall : (s.timers.timerContainer.moveOutBeforeOrAt TimePoint.FOREVER).1 =
      s.timers.timerContainer.timers :=
    List.takeWhile_eq_self_iff.mpr fun timer hmem => decide_eq_true (hdue timer hmem)
  have howned : s.owned = s.timers.timerContainer.timers ++ s.created := by
    simp [Memory.owned, hpasses]
  have hlive : ∀ timer ∈ s.timers.timerContainer.timers, timer.address ∈ s.live := by
    intro timer hmem
    apply h.live
    rw [howned]
    exact List.mem_append_left _ hmem
  obtain ⟨hfault, hcreated, hmem⟩ := deleteAll_of_live (s := { s with
    timers.timerContainer :=
      (s.timers.timerContainer.moveOutBeforeOrAt TimePoint.FOREVER).2 })
    h.nodup_container hlive h.nodup
  constructor
  · simp only [Memory.destroy, hall, hfault]
    exact h.fault
  · intro hdestroyed
    cases hdestroyed
  · intro _ a ha
    simp only [Memory.destroy, hall, hcreated, hmem] at ha ⊢
    obtain ⟨hin, hout⟩ := ha
    rw [← h.perm.mem_iff, howned, List.map_append, List.mem_append] at hin
    exact hin.resolve_left hout

theorem Sound.step (h : Sound s) (hstep : Step θ CancelsAnother AllDue s t) : Sound t := by
  obtain ⟨hdestroyed, _, hm⟩ := hstep
  have howned := h.owned hdestroyed
  cases hm with
  | create address timePoint interval repetitions hfresh => exact (howned.createTimer hfresh).sound
  | add timer hcode hcreated => exact (howned.addATimer hcreated).sound
  | cancel address hcode hidentifier hmay => exact (howned.cancelATimer hmay).sound
  | beginPass caller timePoint hcode => exact (howned.beginPass caller timePoint).sound
  | start pass passes timer rest hpasses hrunning hexpired =>
    exact (howned.start hpasses hrunning hexpired).sound
  | afterCallback pass passes timer hpasses hrunning =>
    exact (howned.afterCallback hpasses hrunning).sound
  | endPass pass passes hpasses hrunning hexpired =>
    exact (howned.endPass hpasses hrunning hexpired).sound
  | destroy hpasses hmay => exact howned.destroy hpasses hmay

theorem owned_initial (clock : Int) : Owned (initial θ clock) where
  perm := by
    simp only [Memory.owned, initial, List.flatMap_nil, List.append_nil]
    exact Timers.perm_addATimer.map Timer.address
  nodup := List.nodup_singleton 0
  fault := rfl
  exists_loop := rfl

end Step

/-- In every run that cancels only timers that exist and never the last one in the container, and
that destroys a loop only when every timer is due at some time, no timer is read or deleted after
its deletion, and the destructor leaves no timer behind that was added. -/
theorem timers_deleted_once {θ clock : Int} {s : Memory}
    (hr : Reaches (Step θ CancelsAnother AllDue) (initial θ clock) s) :
    s.fault = none ∧
      (s.destroyed = true → ∀ a ∈ s.live, a ∈ s.created.map Timer.address) := by
  have h : Sound s := hr.invariant (owned_initial clock).sound fun _ _ => Sound.step
  exact ⟨h.fault, h.released⟩

/-- A timer expires after another one has been cancelled. -/
theorem timers_deleted_once_cancelled : ∃ s : Memory,
    Reaches (Step 3 CancelsAnother AllDue) (initial 3 0) s ∧ s.fault = none ∧
      s.destroyed = true ∧ s.live = [] := by
  have hr : ∃ s : Memory, Reaches (Step 3 CancelsAnother AllDue) (initial 3 0) s ∧
      s.destroyed = true ∧ s.live = [] := by
    refine ⟨_, .head ⟨rfl, rfl, .create 1 5 0 0 (by decide)⟩ <|
      .head ⟨rfl, rfl, .add (.new 1 5 0 0) trivial (by decide)⟩ <|
      .head ⟨rfl, rfl, .cancel 1 trivial (by decide) ⟨by decide, by decide⟩⟩ <|
      .single ⟨rfl, rfl, .destroy rfl ?_⟩, rfl, rfl⟩
    show ∀ timer ∈ _, _
    decide
  obtain ⟨s, hr, hdestroyed, hlive⟩ := hr
  exact ⟨s, hr, (timers_deleted_once hr).1, hdestroyed, hlive⟩

/-- The identifier of a timer that has expired is a dangling pointer; and a timer that a callback
cancels while the container holds no other is never deleted. -/
theorem timer_read_after_delete_and_leaked :
    (∃ s : Memory, Reaches (Step 3 (fun _ _ => True) (fun _ => True)) (initial 3 0) s ∧
      s.fault = some (.readAfterDelete 1)) ∧
    ∃ s : Memory, Reaches (Step 3 (fun _ _ => True) (fun _ => True)) (initial 3 0) s ∧
      s.destroyed = true ∧ s.live = [2] ∧ s.created = [] := by
  constructor
  · exact ⟨_, .head ⟨rfl, rfl, .create 1 5 0 0 (by decide)⟩ <|
      .head ⟨rfl, rfl, .add (.new 1 5 0 0) trivial (by decide)⟩ <|
      .head ⟨rfl, rfl, .beginPass .loop 5 trivial⟩ <|
      .head ⟨rfl, rfl, .start _ [] _ [] rfl rfl rfl⟩ <|
      .head ⟨rfl, rfl, .afterCallback _ [] _ rfl rfl⟩ <|
      .head ⟨rfl, rfl, .endPass _ [] rfl rfl rfl⟩ <|
      .single ⟨rfl, rfl, .cancel 1 trivial (by decide) trivial⟩, rfl⟩
  · exact ⟨_, .head ⟨rfl, rfl, .create 1 3000000000 0 0 (by decide)⟩ <|
      .head ⟨rfl, rfl, .add (.new 1 3000000000 0 0) trivial (by decide)⟩ <|
      .head ⟨rfl, rfl, .create 2 9000000000 0 0 (by decide)⟩ <|
      .head ⟨rfl, rfl, .add (.new 2 9000000000 0 0) trivial (by decide)⟩ <|
      .head ⟨rfl, rfl, .beginPass .loop 3000000000 trivial⟩ <|
      .head ⟨rfl, rfl, .start _ [] _ _ rfl rfl rfl⟩ <|
      .head ⟨rfl, rfl, .afterCallback _ [] _ rfl rfl⟩ <|
      .head ⟨rfl, rfl, .start _ [] _ _ rfl rfl rfl⟩ <|
      .head ⟨rfl, rfl, .cancel 2 rfl (by decide) trivial⟩ <|
      .head ⟨rfl, rfl, .afterCallback _ [] _ rfl rfl⟩ <|
      .head ⟨rfl, rfl, .endPass _ [] rfl rfl rfl⟩ <|
      .single ⟨rfl, rfl, .destroy rfl trivial⟩, rfl, rfl, rfl⟩

end Memory

end EventLoop

end XubinhServer

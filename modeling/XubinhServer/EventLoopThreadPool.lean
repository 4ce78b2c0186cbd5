import Mathlib.Algebra.Group.Action.Defs
import Mathlib.Algebra.Order.BigOperators.Group.Finset
import Mathlib.Logic.Function.Basic
import XubinhServer.Lib.Transition

/-! The worker threads of a pool, from `EventLoopThreadPool::start` to `join`. While
`Thread::start` waits for a new thread, `EventLoopThread::start` holds the mutex that this thread
has to lock next. A mutex is held from a position behind its lock up to its unlock. -/
namespace XubinhServer.EventLoopThreadPool

open Transition
open Function (update)

/-- Where `EventLoopThread::start` is, and `Thread::start` in it. -/
inductive StartPosition where
  | lockingLoop
  | lockingThread
  | creating
  | testingTid
  | waitingTid
  | wokenTid
  | releasingThread
  | testingLoop
  | waitingLoop
  | wokenLoop
  | releasingLoop
  deriving DecidableEq

/-- Where the thread is that owns the pool. -/
inductive Owner where
  | starting (i : Nat)
  | startingThread (i : Nat) (position : StartPosition)
  | started
  | stopping (i : Nat)
  /-- asks `is_joinable` again and again -/
  | polling
  | joining (i : Nat)
  | joined
  deriving DecidableEq

/-- Where a worker is in `_wrapper_of_worker_function` and `_worker_function`. -/
inductive WorkerPosition where
  | absent
  | lockingThread
  | enteringTid
  | unlockingThread
  | notifyingTid
  | constructing
  | lockingLoop
  | enteringLoop
  | unlockingLoop
  | notifyingLoop
  /-- in `_thread_initialization_callback` -/
  | initializing
  | looping
  /-- at the end of `_worker_function`, where its `EventLoop` goes -/
  | destroying
  | marking
  | ended
  deriving DecidableEq

/-- The `EventLoop` of `_worker_function`. -/
structure WorkerLoop where
  loopIndex : Nat
  needStop : Bool

/-- An `EventLoopThread` with its `Thread`. -/
structure EventLoopThread where
  position : WorkerPosition
  tid : Int
  isStarted : Bool
  isJoinable : Bool
  isJoined : Bool
  /-- the loop, while it exists -/
  loop : Option WorkerLoop
  /-- whether `_loop_ptr` has been set to it -/
  hasLoopPtr : Bool

inductive Fault where
  | nullPointer
  | danglingPointer
  deriving DecidableEq

structure State where
  owner : Owner
  threads : Nat → EventLoopThread
  fault : Option Fault

def EventLoopThread.new : EventLoopThread where
  position := .absent
  tid := -1
  isStarted := false
  isJoinable := false
  isJoined := false
  loop := none
  hasLoopPtr := false

namespace StartPosition

/-- The mutex of the `Thread` is held. -/
def HoldsThread : StartPosition → Prop
  | .creating | .testingTid | .releasingThread => True
  | _ => False

/-- The mutex of the `EventLoopThread` is held. -/
def HoldsLoop : StartPosition → Prop
  | .lockingLoop | .waitingLoop | .wokenLoop => False
  | _ => True

end StartPosition

namespace WorkerPosition

def HoldsThread : WorkerPosition → Prop
  | .enteringTid | .unlockingThread => True
  | _ => False

def HoldsLoop : WorkerPosition → Prop
  | .enteringLoop | .unlockingLoop => True
  | _ => False

end WorkerPosition

namespace Owner

def HoldsThread (owner : Owner) (i : Nat) : Prop :=
  ∃ position, owner = .startingThread i position ∧ position.HoldsThread

def HoldsLoop (owner : Owner) (i : Nat) : Prop :=
  ∃ position, owner = .startingThread i position ∧ position.HoldsLoop

/-- What the step of worker `i` at `position` does to the owner: it may notify. -/
def notified (owner : Owner) (i : Nat) (position : WorkerPosition) : Owner :=
  match position with
  | .notifyingTid =>
    if owner = .startingThread i .waitingTid then .startingThread i .wokenTid else owner
  | .notifyingLoop =>
    if owner = .startingThread i .waitingLoop then .startingThread i .wokenLoop else owner
  | _ => owner

end Owner

/-- One step of worker `i`. A loop returns once it has been asked to stop. -/
inductive Work (owner : Owner) (i : Nat) : EventLoopThread → EventLoopThread → Prop
  | lockThread {t} (hp : t.position = .lockingThread) (hfree : ¬owner.HoldsThread i) :
      Work owner i t { t with position := .enteringTid }
  | enterTid {t} (tid : Int) (htid : 0 < tid) (hp : t.position = .enteringTid) :
      Work owner i t { t with position := .unlockingThread, tid := tid }
  | unlockThread {t} (hp : t.position = .unlockingThread) :
      Work owner i t { t with position := .notifyingTid }
  | notifyTid {t} (hp : t.position = .notifyingTid) :
      Work owner i t { t with position := .constructing }
  | construct {t} (hp : t.position = .constructing) :
      Work owner i t { t with position := .lockingLoop, loop := some ⟨i, false⟩ }
  | lockLoop {t} (hp : t.position = .lockingLoop) (hfree : ¬owner.HoldsLoop i) :
      Work owner i t { t with position := .enteringLoop }
  | enterLoop {t} (hp : t.position = .enteringLoop) :
      Work owner i t { t with position := .unlockingLoop, hasLoopPtr := true }
  | unlockLoop {t} (hp : t.position = .unlockingLoop) :
      Work owner i t { t with position := .notifyingLoop }
  | notifyLoop {t} (hp : t.position = .notifyingLoop) :
      Work owner i t { t with position := .initializing }
  | runCallback {t} (hp : t.position = .initializing) :
      Work owner i t { t with position := .looping }
  | leaveLoop {t} (loop : WorkerLoop) (hp : t.position = .looping) (hloop : t.loop = some loop)
      (hstop : loop.needStop = true) : Work owner i t { t with position := .destroying }
  | destroyLoop {t} (hp : t.position = .destroying) :
      Work owner i t { t with position := .marking, loop := none }
  | mark {t} (hp : t.position = .marking) :
      Work owner i t { t with position := .ended, isJoinable := true }

namespace State

def initial : State := ⟨.starting 0, fun _ => .new, none⟩

/-- `get_loop()->ask_to_stop()`. -/
def askToStop (s : State) (i : Nat) : State :=
  let t := s.threads i
  if t.hasLoopPtr then
    match t.loop with
    | some loop => { s with
        threads := update s.threads i { t with loop := some { loop with needStop := true } } }
    | none => { s with fault := some .danglingPointer }
  else { s with fault := some .nullPointer }

end State

/-- One step of the owner in `start`, `stop` or `join` of a pool of `n` workers. -/
inductive Own (n : Nat) : State → State → Prop
  | pushBack {s} (i : Nat) (ho : s.owner = .starting i) (hi : i < n) :
      Own n s { s with
        owner := .startingThread i .lockingLoop
        threads := update s.threads i .new }
  | finishStart {s} (i : Nat) (ho : s.owner = .starting i) (hi : n ≤ i) :
      Own n s { s with owner := .started }
  | lockLoop {s} (i : Nat) (ho : s.owner = .startingThread i .lockingLoop)
      (hfree : ¬(s.threads i).position.HoldsLoop) :
      Own n s { s with owner := .startingThread i .lockingThread }
  | lockThread {s} (i : Nat) (ho : s.owner = .startingThread i .lockingThread)
      (hfree : ¬(s.threads i).position.HoldsThread) (hnew : (s.threads i).isStarted = false) :
      Own n s { s with owner := .startingThread i .creating }
  | skipThread {s} (i : Nat) (ho : s.owner = .startingThread i .lockingThread)
      (hold : (s.threads i).isStarted = true) :
      Own n s { s with owner := .startingThread i .testingLoop }
  /-- `pthread_create` -/
  | create {s} (i : Nat) (ho : s.owner = .startingThread i .creating) :
      Own n s { s with
        owner := .startingThread i .testingTid
        threads := update s.threads i { s.threads i with position := .lockingThread } }
  | waitTid {s} (i : Nat) (ho : s.owner = .startingThread i .testingTid)
      (hfalse : ¬0 < (s.threads i).tid) :
      Own n s { s with owner := .startingThread i .waitingTid }
  | relockThread {s} (i : Nat) (ho : s.owner = .startingThread i .wokenTid)
      (hfree : ¬(s.threads i).position.HoldsThread) :
      Own n s { s with owner := .startingThread i .testingTid }
  | passTid {s} (i : Nat) (ho : s.owner = .startingThread i .testingTid)
      (htrue : 0 < (s.threads i).tid) :
      Own n s { s with owner := .startingThread i .releasingThread }
  | releaseThread {s} (i : Nat) (ho : s.owner = .startingThread i .releasingThread) :
      Own n s { s with
        owner := .startingThread i .testingLoop
        threads := update s.threads i { s.threads i with isStarted := true } }
  | waitLoop {s} (i : Nat) (ho : s.owner = .startingThread i .testingLoop)
      (hfalse : (s.threads i).hasLoopPtr = false) :
      Own n s { s with owner := .startingThread i .waitingLoop }
  | relockLoop {s} (i : Nat) (ho : s.owner = .startingThread i .wokenLoop)
      (hfree : ¬(s.threads i).position.HoldsLoop) :
      Own n s { s with owner := .startingThread i .testingLoop }
  | passLoop {s} (i : Nat) (ho : s.owner = .startingThread i .testingLoop)
      (htrue : (s.threads i).hasLoopPtr = true) :
      Own n s { s with owner := .startingThread i .releasingLoop }
  | releaseLoop {s} (i : Nat) (ho : s.owner = .startingThread i .releasingLoop) :
      Own n s { s with owner := .starting (i + 1) }
  | askToStop {s} (i : Nat) (ho : s.owner = .stopping i) (hi : i < n) :
      Own n s { s.askToStop i with owner := .stopping (i + 1) }
  | finishStop {s} (i : Nat) (ho : s.owner = .stopping i) (hi : n ≤ i) :
      Own n s { s with owner := .polling }
  | findJoinable {s} (ho : s.owner = .polling)
      (hall : ∀ i < n, (s.threads i).isJoinable = true) : Own n s { s with owner := .joining 0 }
  /-- `pthread_join` returns when the thread has ended. -/
  | join {s} (i : Nat) (ho : s.owner = .joining i) (hi : i < n)
      (hstarted : (s.threads i).isStarted = true) (hended : (s.threads i).position = .ended) :
      Own n s { s with
        owner := .joining (i + 1)
        threads := update s.threads i { s.threads i with isJoined := true } }
  | finishJoin {s} (i : Nat) (ho : s.owner = .joining i) (hi : n ≤ i) :
      Own n s { s with owner := .joined }

inductive Advance (n : Nat) : State → State → Prop
  | own {s t} (h : Own n s t) : Advance n s t
  | work {s} (i : Nat) (t : EventLoopThread) (h : Work s.owner i (s.threads i) t) :
      Advance n s { s with
        owner := s.owner.notified i (s.threads i).position
        threads := update s.threads i t }

/-- The owner may come to `stop`, and its waits may end by themselves. -/
inductive Step (n : Nat) : State → State → Prop
  | advance {s t} (h : Advance n s t) : Step n s t
  | stop {s} (ho : s.owner = .started) : Step n s { s with owner := .stopping 0 }
  | wakeTid {s} (i : Nat) (ho : s.owner = .startingThread i .waitingTid) :
      Step n s { s with owner := .startingThread i .wokenTid }
  | wakeLoop {s} (i : Nat) (ho : s.owner = .startingThread i .waitingLoop) :
      Step n s { s with owner := .startingThread i .wokenLoop }

/-! ### What a worker has entered -/

/-- How far a worker is. -/
def WorkerPosition.rank : WorkerPosition → Nat
  | .absent => 0
  | .lockingThread => 1
  | .enteringTid => 2
  | .unlockingThread => 3
  | .notifyingTid => 4
  | .constructing => 5
  | .lockingLoop => 6
  | .enteringLoop => 7
  | .unlockingLoop => 8
  | .notifyingLoop => 9
  | .initializing => 10
  | .looping => 11
  | .destroying => 12
  | .marking => 13
  | .ended => 14

/-- What the members of an `EventLoopThread` say about where its worker is. -/
structure EventLoopThread.Kept (i : Nat) (t : EventLoopThread) : Prop where
  tid : 0 < t.tid ↔ 3 ≤ t.position.rank
  hasLoopPtr : t.hasLoopPtr = true ↔ 8 ≤ t.position.rank
  loop : 6 ≤ t.position.rank → t.position.rank ≤ 12 → ∃ needStop, t.loop = some ⟨i, needStop⟩
  isJoinable : t.isJoinable = true ↔ t.position.rank = 14

/-- What a step of a worker changes, and what it needs. -/
structure Worked (owner : Owner) (i : Nat) (t t' : EventLoopThread) : Prop where
  rank : t'.position.rank = t.position.rank + 1
  present : 1 ≤ t.position.rank ∧ t.position.rank ≤ 13
  isStarted : t'.isStarted = t.isStarted
  threadFree : t.position.rank = 1 → ¬owner.HoldsThread i
  loopFree : t.position.rank = 6 → ¬owner.HoldsLoop i
  asked : t.position.rank = 11 → ∃ loop, t.loop = some loop ∧ loop.needStop = true
  needStop : ∀ loop, t'.loop = some loop →
    t.loop = some loop ∨ t.position.rank = 5 ∧ loop.needStop = false

variable {n i j : Nat} {s s' : State} {owner owner' : Owner} {t t' : EventLoopThread}
  {position : StartPosition}

theorem Work.worked (h : Work owner i t t') : Worked owner i t t' := by
  cases h <;> constructor <;> simp_all [WorkerPosition.rank]

theorem EventLoopThread.Kept.work (hkept : t.Kept i) (h : Work owner i t t') : t'.Kept i := by
  obtain ⟨htid, hptr, hloop, hjoinable⟩ := hkept
  cases h <;> constructor <;> simp_all [WorkerPosition.rank]

/-! ### Where the owner is with a worker -/

inductive Stage where
  | absent
  | starting (position : StartPosition)
  | running
  | asked
  | joined

/-- Where the owner of a pool of `n` workers is with worker `j`. -/
def Owner.stage (n : Nat) (owner : Owner) (j : Nat) : Stage :=
  match owner with
  | .starting i => if j < i then .running else .absent
  | .startingThread i position =>
    if j < i then .running else if j = i then .starting position else .absent
  | .started => if j < n then .running else .absent
  | .stopping i => if j < i then .asked else if j < n then .running else .absent
  | .polling => if j < n then .asked else .absent
  | .joining i => if j < i then .joined else if j < n then .asked else .absent
  | .joined => if j < n then .joined else .absent

def Owner.Within (n : Nat) : Owner → Prop
  | .starting i | .stopping i | .joining i => i ≤ n
  | .startingThread i _ => i < n
  | _ => True

namespace Stage

/-- How far a worker can be. -/
def Ranks : Stage → Nat → Prop
  | .absent, rank => rank = 0
  | .starting .lockingLoop, rank => rank = 0
  | .starting .lockingThread, rank => rank = 0
  | .starting .creating, rank => rank = 0
  | .starting .testingTid, rank => rank = 1 ∨ 4 ≤ rank ∧ rank ≤ 6
  | .starting .waitingTid, rank => 1 ≤ rank ∧ rank ≤ 4
  | .starting .wokenTid, rank => 1 ≤ rank ∧ rank ≤ 6
  | .starting .releasingThread, rank => 4 ≤ rank ∧ rank ≤ 6
  | .starting .testingLoop, rank => 4 ≤ rank ∧ rank ≤ 6 ∨ 9 ≤ rank ∧ rank ≤ 11
  | .starting .waitingLoop, rank => 4 ≤ rank ∧ rank ≤ 9
  | .starting .wokenLoop, rank => 4 ≤ rank ∧ rank ≤ 11
  | .starting .releasingLoop, rank => 9 ≤ rank ∧ rank ≤ 11
  | .running, rank => 9 ≤ rank ∧ rank ≤ 11
  | .asked, rank => 9 ≤ rank ∧ rank ≤ 14
  | .joined, rank => rank = 14

/-- `Thread::start` has returned. -/
def Started : Stage → Prop
  | .starting .testingLoop | .starting .waitingLoop | .starting .wokenLoop
  | .starting .releasingLoop | .running | .asked | .joined => True
  | _ => False

def Asked : Stage → Prop
  | .asked | .joined => True
  | _ => False

structure Allows (stage : Stage) (t : EventLoopThread) : Prop where
  ranks : stage.Ranks t.position.rank
  isStarted : t.isStarted = true ↔ stage.Started
  needStop : ∀ loop, t.loop = some loop → (loop.needStop = true ↔ stage.Asked)

/-- What a notification of the worker does. -/
def notified (stage : Stage) (position : WorkerPosition) : Stage :=
  match stage, position with
  | .starting .waitingTid, .notifyingTid => .starting .wokenTid
  | .starting .waitingLoop, .notifyingLoop => .starting .wokenLoop
  | stage, _ => stage

end Stage

theorem stage_startingThread :
    (Owner.startingThread i position).stage n i = .starting position := by
  simp [Owner.stage]

theorem stage_startingThread_ne (position' : StartPosition) (hj : j ≠ i) :
    (Owner.startingThread i position').stage n j =
      (Owner.startingThread i position).stage n j := by
  simp [Owner.stage, hj]

theorem stage_eq_starting (h : owner.stage n j = .starting position) :
    owner = .startingThread j position := by
  cases owner with
  | startingThread i p =>
    rw [Owner.stage] at h
    split at h
    · cases h
    · split at h
      · rename_i heq
        cases h
        rw [heq]
      · cases h
  | polling =>
    rw [Owner.stage] at h
    split at h <;> cases h
  | started =>
    rw [Owner.stage] at h
    split at h <;> cases h
  | joined =>
    rw [Owner.stage] at h
    split at h <;> cases h
  | starting i =>
    rw [Owner.stage] at h
    split at h <;> cases h
  | stopping i =>
    rw [Owner.stage] at h
    split at h
    · cases h
    · split at h <;> cases h
  | joining i =>
    rw [Owner.stage] at h
    split at h
    · cases h
    · split at h <;> cases h

theorem notified_cases (owner : Owner) (i : Nat) (p : WorkerPosition) :
    owner.notified i p = owner ∨ ∃ q q', owner = .startingThread i q ∧
      owner.notified i p = .startingThread i q' ∧ (Stage.starting q).notified p = .starting q' := by
  cases p with
  | notifyingTid =>
    rw [Owner.notified]
    split
    · rename_i heq
      exact .inr ⟨_, _, heq, rfl, rfl⟩
    · exact .inl rfl
  | notifyingLoop =>
    rw [Owner.notified]
    split
    · rename_i heq
      exact .inr ⟨_, _, heq, rfl, rfl⟩
    · exact .inl rfl
  | _ => exact .inl rfl

theorem stage_notified_ne (p : WorkerPosition) (hj : j ≠ i) :
    (owner.notified i p).stage n j = owner.stage n j := by
  cases notified_cases owner i p with
  | inl hsame => rw [hsame]
  | inr hwoken =>
    obtain ⟨q, q', ho, ho', _⟩ := hwoken
    rw [ho', ho]
    exact stage_startingThread_ne q' hj

theorem stage_notified (p : WorkerPosition) :
    (owner.notified i p).stage n i = (owner.stage n i).notified p := by
  by_cases hstarting : ∃ q, owner = .startingThread i q
  · obtain ⟨q, ho⟩ := hstarting
    subst ho
    cases p with
    | notifyingTid => cases q <;> simp [Owner.notified, Stage.notified, Owner.stage]
    | notifyingLoop => cases q <;> simp [Owner.notified, Stage.notified, Owner.stage]
    | _ => simp [Owner.notified, Stage.notified, Owner.stage]
  · have hsame : owner.notified i p = owner := by
      cases notified_cases owner i p with
      | inl hsame => exact hsame
      | inr hwoken =>
        obtain ⟨q, _, ho, _⟩ := hwoken
        exact absurd ⟨q, ho⟩ hstarting
    rw [hsame]
    cases hstage : owner.stage n i with
    | starting q => exact absurd ⟨q, stage_eq_starting hstage⟩ hstarting
    | _ => rfl

theorem within_notified (h : owner.Within n) (p : WorkerPosition) :
    (owner.notified i p).Within n := by
  cases notified_cases owner i p with
  | inl hsame =>
    rw [hsame]
    exact h
  | inr hwoken =>
    obtain ⟨q, q', ho, ho', _⟩ := hwoken
    rw [ho] at h
    rw [ho']
    exact h

theorem Stage.notified_flags (stage : Stage) (p : WorkerPosition) :
    ((stage.notified p).Started ↔ stage.Started) ∧ ((stage.notified p).Asked ↔ stage.Asked) := by
  cases stage with
  | starting q => cases q <;> cases p <;> exact ⟨Iff.rfl, Iff.rfl⟩
  | _ => exact ⟨Iff.rfl, Iff.rfl⟩

theorem Stage.Ranks.asked_le {stage : Stage} {rank : Nat} (h : stage.Ranks rank)
    (hasked : stage.Asked) : 9 ≤ rank := by
  cases stage with
  | asked => exact h.1
  | joined =>
    rw [Stage.Ranks] at h
    omega
  | _ => exact hasked.elim

/-- A worker that waits for a mutex of the owner does not go on, and a notification finds the
owner in its wait. -/
theorem Stage.Ranks.work (hranks : (owner.stage n i).Ranks t.position.rank)
    (hworked : Worked owner i t t')
    (hlooping : t.position.rank = 11 → (owner.stage n i).Asked) :
    ((owner.stage n i).notified t.position).Ranks t'.position.rank := by
  obtain ⟨hrank, hpresent, _, hthread, hloop, _, _⟩ := hworked
  rw [hrank]
  generalize hstage : owner.stage n i = stage at *
  cases stage with
  | absent =>
    rw [Stage.Ranks] at hranks
    omega
  | starting q =>
    have howner := stage_eq_starting hstage
    subst howner
    have hholds : q.HoldsThread → t.position.rank ≠ 1 :=
      fun hq heq => hthread heq ⟨q, rfl, hq⟩
    have hholds' : q.HoldsLoop → t.position.rank ≠ 6 :=
      fun hq heq => hloop heq ⟨q, rfl, hq⟩
    have hnot : t.position.rank ≠ 11 := hlooping
    generalize hposition : t.position = p at *
    cases q <;> cases p <;>
      simp_all [Stage.Ranks, Stage.notified, StartPosition.HoldsThread, StartPosition.HoldsLoop,
        WorkerPosition.rank]
  | running =>
    have hnot : t.position.rank ≠ 11 := hlooping
    simp only [Stage.notified, Stage.Ranks] at hranks ⊢
    omega
  | asked =>
    simp only [Stage.notified, Stage.Ranks] at hranks ⊢
    omega
  | joined =>
    rw [Stage.Ranks] at hranks
    omega

/-- The worker takes a step, and the owner is notified. -/
theorem Stage.Allows.work (h : (owner.stage n i).Allows t) (hwork : Work owner i t t') :
    ((owner.notified i t.position).stage n i).Allows t' := by
  have hworked := hwork.worked
  obtain ⟨hstarted, hasked⟩ := (owner.stage n i).notified_flags t.position
  rw [stage_notified]
  constructor
  · refine h.ranks.work hworked fun heq => ?_
    obtain ⟨loop, hloop, hstop⟩ := hworked.asked heq
    exact (h.needStop loop hloop).mp hstop
  · rw [hworked.isStarted, h.isStarted, hstarted]
  · intro loop hloop
    rw [hasked]
    cases hworked.needStop loop hloop with
    | inl hsame => exact h.needStop loop hsame
    | inr hnew =>
      rw [hnew.2]
      have hnot : ¬(owner.stage n i).Asked := by
        intro hmem
        have hle := h.ranks.asked_le hmem
        omega
      simp [hnot]

/-! ### What every step keeps -/

structure Sound (n : Nat) (s : State) : Prop where
  fault : s.fault = none
  within : s.owner.Within n
  kept : ∀ i, (s.threads i).Kept i
  allows : ∀ i, (s.owner.stage n i).Allows (s.threads i)

theorem kept_new (i : Nat) : EventLoopThread.new.Kept i := by
  constructor <;> simp [EventLoopThread.new, WorkerPosition.rank]

theorem sound_initial : Sound n .initial where
  fault := rfl
  within := Nat.zero_le n
  kept i := kept_new i
  allows i := by
    constructor <;> simp [State.initial, EventLoopThread.new, WorkerPosition.rank, Owner.stage,
      Stage.Ranks, Stage.Started]

/-- The owner moves, and thread `i` is the one that changes. -/
theorem Sound.move (h : Sound n s) (i : Nat) (hwithin : owner'.Within n)
    (hothers : ∀ j, j ≠ i → owner'.stage n j = s.owner.stage n j) (hkept : t'.Kept i)
    (hallows : (owner'.stage n i).Allows t') :
    Sound n ⟨owner', update s.threads i t', s.fault⟩ where
  fault := h.fault
  within := hwithin
  kept j := by
    by_cases hj : j = i
    · subst hj
      simpa using hkept
    · simpa [hj] using h.kept j
  allows j := by
    by_cases hj : j = i
    · subst hj
      simpa using hallows
    · simpa [hj, hothers j hj] using h.allows j

/-- The owner moves on with thread `i`, and no thread changes. -/
theorem Sound.pass (h : Sound n s) (i : Nat) (hwithin : owner'.Within n)
    (hothers : ∀ j, j ≠ i → owner'.stage n j = s.owner.stage n j)
    (hallows : (owner'.stage n i).Allows (s.threads i)) :
    Sound n { s with owner := owner' } := by
  have hmoved := h.move i hwithin hothers (h.kept i) hallows
  rwa [Function.update_eq_self] at hmoved

/-- The owner moves, and is with all threads where it was. -/
theorem Sound.turn (h : Sound n s) (hwithin : owner'.Within n)
    (hsame : ∀ j, owner'.stage n j = s.owner.stage n j) : Sound n { s with owner := owner' } :=
  h.pass 0 hwithin (fun j _ => hsame j) (hsame 0 ▸ h.allows 0)

/-- The owner goes on in the start of thread `i`, and leaves the thread. -/
theorem Sound.passStart {position' : StartPosition} (h : Sound n s)
    (ho : s.owner = .startingThread i position)
    (hranks : (Stage.starting position').Ranks (s.threads i).position.rank)
    (hstarted : (Stage.starting position').Started ↔ (Stage.starting position).Started) :
    Sound n { s with owner := .startingThread i position' } := by
  have hwithin := h.within
  have hallows := h.allows i
  rw [ho] at hwithin hallows
  rw [stage_startingThread] at hallows
  refine h.pass i hwithin (fun j hj => ?_) ?_
  · rw [ho]
    exact stage_startingThread_ne position' hj
  · rw [stage_startingThread]
    exact ⟨hranks, hallows.isStarted.trans hstarted.symm, hallows.needStop⟩

theorem Sound.ranks_of_starting (h : Sound n s) (ho : s.owner = .startingThread i position) :
    (Stage.starting position).Ranks (s.threads i).position.rank := by
  have hallows := h.allows i
  rw [ho, stage_startingThread] at hallows
  exact hallows.ranks

theorem Sound.isStarted_of_starting (h : Sound n s)
    (ho : s.owner = .startingThread i position) :
    (s.threads i).isStarted = true ↔ (Stage.starting position).Started := by
  have hallows := h.allows i
  rw [ho, stage_startingThread] at hallows
  exact hallows.isStarted

theorem not_holdsThread (p : WorkerPosition) : ¬p.HoldsThread ↔ p.rank ≠ 2 ∧ p.rank ≠ 3 := by
  cases p <;> simp [WorkerPosition.HoldsThread, WorkerPosition.rank]

theorem not_holdsLoop (p : WorkerPosition) : ¬p.HoldsLoop ↔ p.rank ≠ 7 ∧ p.rank ≠ 8 := by
  cases p <;> simp [WorkerPosition.HoldsLoop, WorkerPosition.rank]

/-- `_loop_ptr` has been set, and its loop is still there. -/
theorem Sound.askToStop (h : Sound n s) (ho : s.owner = .stopping i) (hi : i < n) :
    Sound n { s.askToStop i with owner := .stopping (i + 1) } := by
  have hallows := h.allows i
  have hrunning : (Owner.stopping i).stage n i = .running := by simp [Owner.stage, hi]
  have hasked : (Owner.stopping (i + 1)).stage n i = .asked := by simp [Owner.stage]
  rw [ho, hrunning] at hallows
  have hranks : 9 ≤ (s.threads i).position.rank ∧ (s.threads i).position.rank ≤ 11 :=
    hallows.ranks
  obtain ⟨htid, hptr, hloop, hjoinable⟩ := h.kept i
  obtain ⟨needStop, hsome⟩ := hloop (by omega) (by omega)
  have hask : s.askToStop i = { s with
      threads := update s.threads i { s.threads i with loop := some ⟨i, true⟩ } } := by
    simp [State.askToStop, hptr.mpr (by omega), hsome]
  rw [hask]
  refine h.move i hi (fun j hj => ?_) ⟨htid, hptr, fun _ _ => ⟨true, rfl⟩, hjoinable⟩ ?_
  · have hlt : j < i + 1 ↔ j < i := by omega
    simp [ho, Owner.stage, hlt]
  · rw [hasked]
    have hle : (s.threads i).position.rank ≤ 14 := by omega
    refine ⟨⟨hranks.1, hle⟩, hallows.isStarted, fun loop heq => ?_⟩
    cases heq
    exact iff_of_true rfl trivial

theorem Sound.own (h : Sound n s) (hown : Own n s s') : Sound n s' := by
  cases hown with
  | pushBack i ho hi =>
    refine h.move i hi (fun j hj => ?_) (kept_new i) ?_
    · simp [ho, Owner.stage, hj]
    · rw [stage_startingThread]
      constructor <;> simp [EventLoopThread.new, WorkerPosition.rank, Stage.Ranks, Stage.Started]
  | finishStart i ho hi =>
    have hwithin := h.within
    rw [ho] at hwithin
    have hn : i = n := Nat.le_antisymm hwithin hi
    refine h.turn trivial fun j => ?_
    rw [ho, hn]
    rfl
  | lockLoop i ho hfree =>
    have hranks := h.ranks_of_starting ho
    exact h.passStart ho hranks Iff.rfl
  | lockThread i ho hfree hnew =>
    have hranks := h.ranks_of_starting ho
    exact h.passStart ho hranks Iff.rfl
  | skipThread i ho hold =>
    exact ((h.isStarted_of_starting ho).mp hold).elim
  | create i ho =>
    have hranks : (s.threads i).position.rank = 0 := h.ranks_of_starting ho
    have hallows := h.allows i
    have hwithin := h.within
    rw [ho] at hwithin hallows
    rw [stage_startingThread] at hallows
    obtain ⟨htid, hptr, _, hjoinable⟩ := h.kept i
    refine h.move i hwithin (fun j hj => ?_) ?_ ?_
    · rw [ho]
      exact stage_startingThread_ne _ hj
    · constructor <;> simp_all [WorkerPosition.rank]
    · rw [stage_startingThread]
      exact ⟨.inl rfl, hallows.isStarted, hallows.needStop⟩
  | waitTid i ho hfalse =>
    have hranks := h.ranks_of_starting ho
    have hrank : ¬3 ≤ (s.threads i).position.rank := fun hle => hfalse ((h.kept i).tid.mpr hle)
    refine h.passStart ho ?_ Iff.rfl
    simp only [Stage.Ranks] at hranks ⊢
    omega
  | relockThread i ho hfree =>
    have hranks := h.ranks_of_starting ho
    have hrank := (not_holdsThread _).mp hfree
    refine h.passStart ho ?_ Iff.rfl
    simp only [Stage.Ranks] at hranks ⊢
    omega
  | passTid i ho htrue =>
    have hranks := h.ranks_of_starting ho
    have hrank := (h.kept i).tid.mp htrue
    refine h.passStart ho ?_ Iff.rfl
    simp only [Stage.Ranks] at hranks ⊢
    omega
  | releaseThread i ho =>
    have hranks := h.ranks_of_starting ho
    have hallows := h.allows i
    have hwithin := h.within
    rw [ho] at hwithin hallows
    rw [stage_startingThread] at hallows
    obtain ⟨htid, hptr, hloop, hjoinable⟩ := h.kept i
    refine h.move i hwithin (fun j hj => ?_) ⟨htid, hptr, hloop, hjoinable⟩ ?_
    · rw [ho]
      exact stage_startingThread_ne _ hj
    · rw [stage_startingThread]
      exact ⟨.inl hranks, iff_of_true rfl trivial, hallows.needStop⟩
  | waitLoop i ho hfalse =>
    have hranks := h.ranks_of_starting ho
    have hrank : ¬8 ≤ (s.threads i).position.rank := by
      intro hle
      rw [(h.kept i).hasLoopPtr.mpr hle] at hfalse
      cases hfalse
    refine h.passStart ho ?_ Iff.rfl
    simp only [Stage.Ranks] at hranks ⊢
    omega
  | relockLoop i ho hfree =>
    have hranks := h.ranks_of_starting ho
    have hrank := (not_holdsLoop _).mp hfree
    refine h.passStart ho ?_ Iff.rfl
    simp only [Stage.Ranks] at hranks ⊢
    omega
  | passLoop i ho htrue =>
    have hranks := h.ranks_of_starting ho
    have hrank := (h.kept i).hasLoopPtr.mp htrue
    refine h.passStart ho ?_ Iff.rfl
    simp only [Stage.Ranks] at hranks ⊢
    omega
  | releaseLoop i ho =>
    have hwithin := h.within
    have hallows := h.allows i
    rw [ho] at hwithin hallows
    rw [stage_startingThread] at hallows
    refine h.pass i hwithin (fun j hj => ?_) ?_
    · have hlt : j < i + 1 ↔ j < i := by omega
      simp [ho, Owner.stage, hj, hlt]
    · have hrunning : (Owner.starting (i + 1)).stage n i = .running := by simp [Owner.stage]
      rw [hrunning]
      exact ⟨hallows.ranks, hallows.isStarted, hallows.needStop⟩
  | askToStop i ho hi => exact h.askToStop ho hi
  | finishStop i ho hi =>
    have hwithin := h.within
    rw [ho] at hwithin
    have hn : i = n := Nat.le_antisymm hwithin hi
    refine h.turn trivial fun j => ?_
    rw [ho, hn]
    by_cases hj : j < n <;> simp [Owner.stage, hj]
  | findJoinable ho hall =>
    refine h.turn (Nat.zero_le n) fun j => ?_
    rw [ho]
    simp [Owner.stage]
  | join i ho hi hstarted hended =>
    have hallows := h.allows i
    have hasked : (Owner.joining i).stage n i = .asked := by simp [Owner.stage, hi]
    have hjoined : (Owner.joining (i + 1)).stage n i = .joined := by simp [Owner.stage]
    rw [ho, hasked] at hallows
    obtain ⟨htid, hptr, hloop, hjoinable⟩ := h.kept i
    refine h.move i hi (fun j hj => ?_) ⟨htid, hptr, hloop, hjoinable⟩ ?_
    · have hlt : j < i + 1 ↔ j < i := by omega
      simp [ho, Owner.stage, hlt]
    · rw [hjoined]
      refine ⟨?_, hallows.isStarted, hallows.needStop⟩
      rw [hended]
      rfl
  | finishJoin i ho hi =>
    have hwithin := h.within
    rw [ho] at hwithin
    have hn : i = n := Nat.le_antisymm hwithin hi
    refine h.turn trivial fun j => ?_
    rw [ho, hn]
    by_cases hj : j < n <;> simp [Owner.stage, hj]

theorem Sound.advance (h : Sound n s) (hadvance : Advance n s s') : Sound n s' := by
  cases hadvance with
  | own hown => exact h.own hown
  | work i t hwork =>
    exact h.move i (within_notified h.within _) (fun j hj => stage_notified_ne _ hj)
      ((h.kept i).work hwork) ((h.allows i).work hwork)

theorem Sound.step (h : Sound n s) (hstep : Step n s s') : Sound n s' := by
  cases hstep with
  | advance hadvance => exact h.advance hadvance
  | stop ho =>
    refine h.turn (Nat.zero_le n) fun j => ?_
    rw [ho]
    simp [Owner.stage]
  | wakeTid i ho =>
    have hranks := h.ranks_of_starting ho
    refine h.passStart ho ?_ Iff.rfl
    simp only [Stage.Ranks] at hranks ⊢
    omega
  | wakeLoop i ho =>
    have hranks := h.ranks_of_starting ho
    refine h.passStart ho ?_ Iff.rfl
    simp only [Stage.Ranks] at hranks ⊢
    omega

/-! ### Where nothing can go on -/

def Settled (n : Nat) (s : State) : Prop := ∀ t, ¬Advance n s t

def StartPosition.work : StartPosition → Nat
  | .lockingLoop => 14
  | .lockingThread => 13
  | .creating => 12
  | .wokenTid => 11
  | .testingTid => 10
  | .waitingTid => 9
  | .releasingThread => 8
  | .wokenLoop => 7
  | .testingLoop => 6
  | .waitingLoop => 5
  | .releasingLoop => 4

/-- A bound on the steps that the owner has left in `start`, `stop` and `join`. -/
def Owner.work (n : Nat) : Owner → Nat
  | .starting i => 15 * (n - i) + 2 * n + 5
  | .startingThread i position => 15 * (n - (i + 1)) + position.work + 2 * n + 5
  | .started => 2 * n + 4
  | .stopping i => n - i + n + 3
  | .polling => n + 2
  | .joining i => n - i + 1
  | .joined => 0

/-- Each step of a worker pays for the wake-up that it may cause. -/
def State.work (n : Nat) (s : State) : Nat :=
  s.owner.work n + ∑ i ∈ Finset.range n, 3 * (14 - (s.threads i).position.rank)

theorem work_update (threads : Nat → EventLoopThread) (t : EventLoopThread) (hi : i < n) :
    ∑ j ∈ Finset.range n, 3 * (14 - (update threads i t j).position.rank) +
        3 * (14 - (threads i).position.rank) =
      ∑ j ∈ Finset.range n, 3 * (14 - (threads j).position.rank) + 3 * (14 - t.position.rank) := by
  have hmem : i ∈ Finset.range n := Finset.mem_range.mpr hi
  have hrest : ∑ j ∈ (Finset.range n).erase i, 3 * (14 - (update threads i t j).position.rank) =
      ∑ j ∈ (Finset.range n).erase i, 3 * (14 - (threads j).position.rank) := by
    refine Finset.sum_congr rfl fun j hj => ?_
    rw [Function.update_of_ne (Finset.ne_of_mem_erase hj)]
  rw [← Finset.add_sum_erase _ _ hmem, hrest, Function.update_self,
    ← Finset.add_sum_erase _ (fun j => 3 * (14 - (threads j).position.rank)) hmem]
  omega

theorem work_lt_of_owner (howner : s'.owner.work n < s.owner.work n)
    (hsame : ∀ j, (s'.threads j).position = (s.threads j).position) : s'.work n < s.work n := by
  have hsum : ∑ j ∈ Finset.range n, 3 * (14 - (s'.threads j).position.rank) =
      ∑ j ∈ Finset.range n, 3 * (14 - (s.threads j).position.rank) :=
    Finset.sum_congr rfl fun j _ => by rw [hsame j]
  rw [State.work, State.work, hsum]
  omega

theorem position_update (h : t.position = (s.threads i).position) (j : Nat) :
    (update s.threads i t j).position = (s.threads j).position := by
  by_cases hj : j = i
  · subst hj
    rw [Function.update_self, h]
  · rw [Function.update_of_ne hj]

theorem position_askToStop (s : State) (i j : Nat) :
    ((s.askToStop i).threads j).position = (s.threads j).position := by
  rw [State.askToStop]
  split
  · split
    · refine position_update ?_ j
      rfl
    · rfl
  · rfl

theorem Sound.own_work_lt (h : Sound n s) (hown : Own n s s') : s'.work n < s.work n := by
  cases hown with
  | pushBack i ho hi =>
    have hallows := h.allows i
    have habsent : (Owner.starting i).stage n i = .absent := by simp [Owner.stage]
    rw [ho, habsent] at hallows
    have hrank : (s.threads i).position.rank = 0 := hallows.ranks
    refine work_lt_of_owner ?_ (position_update ?_)
    · simp only [ho, Owner.work, StartPosition.work]
      omega
    · cases hp : (s.threads i).position <;> simp_all [WorkerPosition.rank, EventLoopThread.new]
  | create i ho =>
    have hrank : (s.threads i).position.rank = 0 := h.ranks_of_starting ho
    have hwithin := h.within
    rw [ho] at hwithin
    have hsum := work_update s.threads { s.threads i with position := .lockingThread } hwithin
    have hcreated : WorkerPosition.lockingThread.rank = 1 := rfl
    rw [hrank] at hsum
    simp only [hcreated] at hsum
    simp only [State.work, ho, Owner.work, StartPosition.work]
    omega
  | askToStop i ho hi =>
    refine work_lt_of_owner ?_ (position_askToStop s i)
    simp only [ho, Owner.work]
    omega
  | releaseThread i ho =>
    refine work_lt_of_owner ?_ (position_update rfl)
    simp only [ho, Owner.work, StartPosition.work]
    omega
  | join i ho hi hstarted hended =>
    refine work_lt_of_owner ?_ (position_update rfl)
    simp only [ho, Owner.work]
    omega
  | releaseLoop i ho =>
    refine work_lt_of_owner ?_ fun j => rfl
    simp only [ho, Owner.work, StartPosition.work]
    omega
  | _ =>
    refine work_lt_of_owner ?_ fun j => rfl
    simp_all only [Owner.work, StartPosition.work]
    omega

/-- A wake-up takes the owner back by two steps at most. -/
theorem notified_work_le (owner : Owner) (i : Nat) (p : WorkerPosition) :
    (owner.notified i p).work n ≤ owner.work n + 2 := by
  cases notified_cases owner i p with
  | inl hsame =>
    rw [hsame]
    exact Nat.le_add_right _ _
  | inr hwoken =>
    obtain ⟨q, q', ho, ho', hq⟩ := hwoken
    rw [ho', ho]
    cases q <;> cases p <;> cases hq <;> simp only [Owner.work, StartPosition.work] <;> omega

theorem stage_of_le (h : owner.Within n) (hi : n ≤ i) : owner.stage n i = .absent := by
  cases owner with
  | starting k =>
    have hk : ¬i < k := Nat.not_lt.mpr (Nat.le_trans h hi)
    rw [Owner.stage, if_neg hk]
  | startingThread k position =>
    have hk : k < i := Nat.lt_of_lt_of_le h hi
    rw [Owner.stage, if_neg (Nat.lt_asymm hk), if_neg (Nat.ne_of_gt hk)]
  | stopping k =>
    have hk : ¬i < k := Nat.not_lt.mpr (Nat.le_trans h hi)
    rw [Owner.stage, if_neg hk, if_neg (Nat.not_lt.mpr hi)]
  | joining k =>
    have hk : ¬i < k := Nat.not_lt.mpr (Nat.le_trans h hi)
    rw [Owner.stage, if_neg hk, if_neg (Nat.not_lt.mpr hi)]
  | _ => rw [Owner.stage, if_neg (Nat.not_lt.mpr hi)]

theorem Sound.work_lt (h : Sound n s) (hadvance : Advance n s s') : s'.work n < s.work n := by
  cases hadvance with
  | own hown => exact h.own_work_lt hown
  | work i t hwork =>
    have hworked := hwork.worked
    have hi : i < n := by
      by_contra hnot
      have hranks := (h.allows i).ranks
      rw [stage_of_le h.within (Nat.le_of_not_lt hnot)] at hranks
      have hrank : (s.threads i).position.rank = 0 := hranks
      have hpresent := hworked.present
      omega
    have hrank := hworked.rank
    have hpresent := hworked.present
    have howner := notified_work_le (n := n) s.owner i (s.threads i).position
    have hsum := work_update s.threads t hi
    rw [State.work, State.work]
    dsimp only
    omega

theorem Sound.work_le (h : Sound n s) : s.work n ≤ 59 * n + 5 := by
  have hsum := Finset.sum_le_card_nsmul (Finset.range n)
    (fun i => 3 * (14 - (s.threads i).position.rank)) 42 fun i _ => by omega
  have howner : s.owner.work n ≤ 17 * n + 5 := by
    have hwithin := h.within
    cases ho : s.owner with
    | startingThread i position =>
      rw [ho] at hwithin
      simp only [Owner.Within] at hwithin
      cases position <;> simp only [Owner.work, StartPosition.work] <;> omega
    | _ =>
      simp only [Owner.work]
      omega
  rw [Finset.card_range, smul_eq_mul] at hsum
  rw [State.work]
  omega

/-- `start` has returned. -/
def Owner.Started : Owner → Prop
  | .starting _ | .startingThread _ _ => False
  | _ => True

end XubinhServer.EventLoopThreadPool

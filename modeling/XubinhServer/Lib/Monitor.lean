import Mathlib.Algebra.BigOperators.Group.Finset.Piecewise
import Mathlib.Algebra.Group.Action.Defs
import Mathlib.Algebra.Order.BigOperators.Group.Finset
import Mathlib.Data.Fintype.Card
import XubinhServer.Lib.Transition

/-! Threads that share a state behind one mutex and wait on condition variables. A wait may end
without a notification, and a notification comes after the mutex has been released. -/
namespace XubinhServer.Monitor

open Transition
open Function (update)

variable {σ ω κ ρ θ : Type}

/-- How many of the threads on a condition variable a notification wakes. -/
inductive Wakes where
  | one
  | all
  deriving DecidableEq

/-- The operations on the guarded state. -/
structure Operations (σ ω κ ρ : Type) where
  /-- the body of an operation behind its wait, or `none` while its predicate is false -/
  attempt : ω → σ → Option (ρ × σ)
  /-- the condition variable of its wait; an operation without one never waits -/
  waitsOn : ω → Option κ
  signals : ω → κ × Wakes
  waits : ∀ o a, attempt o a = none → ∃ c, waitsOn o = some c

/-- Where a thread is in an operation. -/
inductive Position (ω ρ : Type) where
  | outside
  | entering (o : ω)
  /-- holds the mutex and is about to test the predicate -/
  | inside (o : ω)
  | waiting (o : ω)
  /-- has been woken and does not hold the mutex yet -/
  | woken (o : ω)
  /-- has done its operation and still holds the mutex -/
  | leaving (o : ω) (r : ρ)
  /-- has released the mutex and is about to notify -/
  | notifying (o : ω) (r : ρ)

namespace Position

def Holds : Position ω ρ → Prop
  | .inside _ | .leaving _ _ => True
  | _ => False

/-- The thread waits on `c`. -/
def OnCondition (ops : Operations σ ω κ ρ) (c : κ) : Position ω ρ → Prop
  | .waiting o => ops.waitsOn o = some c
  | _ => False

/-- `pthread_cond_broadcast` on `c`, as one thread sees it. -/
def wake [DecidableEq κ] (ops : Operations σ ω κ ρ) (c : κ) : Position ω ρ → Position ω ρ
  | .waiting o => if ops.waitsOn o = some c then .woken o else .waiting o
  | p => p

/-- The operation that the thread has begun and not done yet. -/
def begun : Position ω ρ → Option ω
  | .entering o | .inside o | .waiting o | .woken o => some o
  | _ => none

/-- What the thread has done and not returned yet. -/
def done (t : θ) : Position ω ρ → List (θ × ω × ρ)
  | .leaving o r | .notifying o r => [(t, o, r)]
  | _ => []

end Position

/-- The guarded state, the mutex, the threads, and what has happened. -/
structure State (σ ω ρ θ : Type) where
  shared : σ
  owner : Option θ
  positions : θ → Position ω ρ
  /-- the operations in the order in which they were done -/
  history : List (θ × ω × ρ)
  /-- the operations in the order in which they returned -/
  returned : List (θ × ω × ρ)

def State.initial (s : σ) : State σ ω ρ θ where
  shared := s
  owner := none
  positions _ := .outside
  history := []
  returned := []

section Step

variable [DecidableEq θ] [DecidableEq κ] (ops : Operations σ ω κ ρ)

/-- One step of a thread that is in an operation. -/
inductive Advance : State σ ω ρ θ → State σ ω ρ θ → Prop
  | lock {s} (t : θ) (o : ω) (hp : s.positions t = .entering o ∨ s.positions t = .woken o)
      (hfree : s.owner = none) :
      Advance s { s with
        owner := some t
        positions := update s.positions t (.inside o) }
  /-- `pthread_cond_wait` releases the mutex and blocks in one step. -/
  | wait {s} (t : θ) (o : ω) (c : κ) (hp : s.positions t = .inside o)
      (hc : ops.waitsOn o = some c) (hfalse : ops.attempt o s.shared = none) :
      Advance s { s with
        owner := none
        positions := update s.positions t (.waiting o) }
  | perform {s} (t : θ) (o : ω) (r : ρ) (shared : σ) (hp : s.positions t = .inside o)
      (hdo : ops.attempt o s.shared = some (r, shared)) :
      Advance s { s with
        shared := shared
        positions := update s.positions t (.leaving o r)
        history := s.history ++ [(t, o, r)] }
  | unlock {s} (t : θ) (o : ω) (r : ρ) (hp : s.positions t = .leaving o r) :
      Advance s { s with
        owner := none
        positions := update s.positions t (.notifying o r) }
  | notifyOne {s} (t : θ) (o : ω) (r : ρ) (c : κ) (u : θ) (o' : ω)
      (hp : s.positions t = .notifying o r) (hs : ops.signals o = (c, .one))
      (hu : s.positions u = .waiting o') (hc : ops.waitsOn o' = some c) :
      Advance s { s with
        positions := update (update s.positions u (.woken o')) t .outside
        returned := s.returned ++ [(t, o, r)] }
  | notifyNone {s} (t : θ) (o : ω) (r : ρ) (c : κ) (hp : s.positions t = .notifying o r)
      (hs : ops.signals o = (c, .one)) (hnone : ∀ u, ¬ (s.positions u).OnCondition ops c) :
      Advance s { s with
        positions := update s.positions t .outside
        returned := s.returned ++ [(t, o, r)] }
  | notifyAll {s} (t : θ) (o : ω) (r : ρ) (c : κ) (hp : s.positions t = .notifying o r)
      (hs : ops.signals o = (c, .all)) :
      Advance s { s with
        positions := update (fun u => (s.positions u).wake ops c) t .outside
        returned := s.returned ++ [(t, o, r)] }

/-- One step of the threads: an operation may begin, and a wait may end by itself. -/
inductive Step : State σ ω ρ θ → State σ ω ρ θ → Prop
  | advance {s t} (h : Advance ops s t) : Step s t
  | call {s} (t : θ) (o : ω) (hp : s.positions t = .outside) :
      Step s { s with positions := update s.positions t (.entering o) }
  | spurious {s} (t : θ) (o : ω) (hp : s.positions t = .waiting o) :
      Step s { s with positions := update s.positions t (.woken o) }

end Step

/-! ### What a step leaves alone -/

section Frame

variable [DecidableEq θ] [DecidableEq κ] {ops : Operations σ ω κ ρ} {s t : State σ ω ρ θ}

omit [DecidableEq κ] in
theorem begun_update {f : θ → Position ω ρ} {u : θ} {p : Position ω ρ}
    (h : p.begun = (f u).begun) (v : θ) : (update f u p v).begun = (f v).begun := by
  by_cases hv : v = u
  · subst hv
    rw [Function.update_self, h]
  · rw [Function.update_of_ne hv]

omit [DecidableEq θ] in
theorem Position.begun_wake (c : κ) (p : Position ω ρ) : (p.wake ops c).begun = p.begun := by
  cases p with
  | waiting o =>
    rw [Position.wake]
    split <;> rfl
  | _ => rfl

theorem append_singleton_ne {α : Type} (l : List α) (a : α) : l ++ [a] ≠ l := by
  intro h
  have hlength := congrArg List.length h
  rw [List.length_append, List.length_singleton] at hlength
  omega

/-- A step in which nothing is done leaves the guarded state and what the threads have begun. -/
theorem Advance.begun_eq (h : Advance ops s t) (hsame : t.history = s.history) :
    t.shared = s.shared ∧ ∀ u, (t.positions u).begun = (s.positions u).begun := by
  cases h with
  | lock v o hp _ =>
    refine ⟨rfl, begun_update ?_⟩
    cases hp with
    | inl hp => rw [hp]; rfl
    | inr hp => rw [hp]; rfl
  | wait v o c hp _ _ => exact ⟨rfl, begun_update (by rw [hp]; rfl)⟩
  | perform v o r shared hp _ => exact absurd hsame (append_singleton_ne _ _)
  | unlock v o r hp => exact ⟨rfl, begun_update (by rw [hp]; rfl)⟩
  | notifyOne v o r c w o' hp _ hw _ =>
    have hne : v ≠ w := by
      intro heq
      rw [heq, hw] at hp
      cases hp
    refine ⟨rfl, fun u => ?_⟩
    exact (begun_update (by rw [Function.update_of_ne hne, hp]; rfl) u).trans
      (begun_update (by rw [hw]; rfl) u)
  | notifyNone v o r c hp _ _ => exact ⟨rfl, begun_update (by rw [hp]; rfl)⟩
  | notifyAll v o r c hp _ =>
    refine ⟨rfl, fun u => ?_⟩
    have hv : (Position.outside : Position ω ρ).begun =
        ((s.positions v).wake ops c).begun := by
      rw [Position.begun_wake, hp]
      rfl
    exact (begun_update (f := fun u => (s.positions u).wake ops c) hv u).trans
      (Position.begun_wake c _)

/-- One operation is done in a step, or none. -/
theorem Advance.history_cases (h : Advance ops s t) : t.history = s.history ∨
    ∃ v o r, t.history = s.history ++ [(v, o, r)] := by
  cases h with
  | perform v o r shared _ _ => exact .inr ⟨v, o, r, rfl⟩
  | _ => exact .inl rfl

/-- A step in which an operation is done concerns its thread only. -/
theorem Advance.of_event (h : Advance ops s t) {v : θ} {o : ω} {r : ρ}
    (hevent : t.history = s.history ++ [(v, o, r)]) :
    ops.attempt o s.shared = some (r, t.shared) ∧ (s.positions v).begun = some o ∧
      t.positions = update s.positions v (.leaving o r) := by
  cases h with
  | perform u o' r' shared hp hdo =>
    have hlast := List.append_cancel_left hevent
    cases hlast
    exact ⟨hdo, by rw [hp]; rfl, rfl⟩
  | _ => exact absurd hevent.symm (append_singleton_ne _ _)

/-- A step leaves the threads outside that are outside. -/
theorem Advance.outside (h : Advance ops s t) {u : θ} (hu : s.positions u = .outside) :
    t.positions u = .outside := by
  have hmove : ∀ {f : θ → Position ω ρ} {v : θ} {p : Position ω ρ},
      f u = .outside → f v ≠ .outside → update f v p u = .outside := by
    intro f v p hout hv
    have hne : u ≠ v := by
      intro heq
      rw [← heq] at hv
      exact hv hout
    rw [Function.update_of_ne hne, hout]
  cases h with
  | lock v o hp _ =>
    cases hp with
    | inl hp => exact hmove hu (by simp [hp])
    | inr hp => exact hmove hu (by simp [hp])
  | wait v o c hp _ _ => exact hmove hu (by simp [hp])
  | perform v o r shared hp _ => exact hmove hu (by simp [hp])
  | unlock v o r hp => exact hmove hu (by simp [hp])
  | notifyOne v o r c w o' hp _ hw _ =>
    by_cases huv : u = v
    · rw [huv] at hu ⊢
      exact Function.update_self ..
    · exact (Function.update_of_ne huv _ _).trans (hmove hu (by simp [hw]))
  | notifyNone v o r c hp _ _ => exact hmove hu (by simp [hp])
  | notifyAll v o r c hp _ =>
    have hwake : (s.positions u).wake ops c = .outside := by
      rw [hu]
      rfl
    refine hmove (f := fun u => (s.positions u).wake ops c) hwake ?_
    simp [hp, Position.wake]

end Frame

/-! ### Mutual exclusion -/

/-- The owner of the mutex is the one thread that acts on the guarded state. -/
def Exclusive (s : State σ ω ρ θ) : Prop := ∀ t, (s.positions t).Holds ↔ s.owner = some t

theorem exclusive_initial (s : σ) : Exclusive (State.initial s : State σ ω ρ θ) := by
  intro t
  simp [State.initial, Position.Holds]

section Exclusive

variable [DecidableEq θ] [DecidableEq κ] {ops : Operations σ ω κ ρ} {s t : State σ ω ρ θ}

/-- A thread moves, and neither place before nor behind the move holds the mutex. -/
theorem Exclusive.move (h : Exclusive s) {u : θ} {p : Position ω ρ}
    (hp : t.positions = update s.positions u p) (ho : t.owner = s.owner)
    (hbefore : ¬ (s.positions u).Holds) (hbehind : ¬ p.Holds) : Exclusive t := by
  intro v
  rw [hp, ho]
  by_cases hv : v = u
  · subst hv
    rw [Function.update_self]
    have hnot : s.owner ≠ some v := fun heq => hbefore ((h v).mpr heq)
    exact ⟨fun hh => absurd hh hbehind, fun hh => absurd hh hnot⟩
  · rw [Function.update_of_ne hv]
    exact h v

/-- The owner moves and keeps the mutex. -/
theorem Exclusive.keep (h : Exclusive s) {u : θ} {p : Position ω ρ}
    (hp : t.positions = update s.positions u p) (ho : t.owner = s.owner)
    (hbefore : (s.positions u).Holds) (hbehind : p.Holds) : Exclusive t := by
  intro v
  rw [hp, ho]
  by_cases hv : v = u
  · subst hv
    rw [Function.update_self]
    exact ⟨fun _ => (h v).mp hbefore, fun _ => hbehind⟩
  · rw [Function.update_of_ne hv]
    exact h v

/-- The owner releases the mutex. -/
theorem Exclusive.release (h : Exclusive s) {u : θ} {p : Position ω ρ}
    (hp : t.positions = update s.positions u p) (ho : t.owner = none)
    (hbefore : (s.positions u).Holds) (hbehind : ¬ p.Holds) : Exclusive t := by
  intro v
  rw [hp, ho]
  by_cases hv : v = u
  · subst hv
    simp [Function.update_self, hbehind]
  · rw [Function.update_of_ne hv, h v, (h u).mp hbefore]
    simp [Ne.symm hv]

/-- A thread takes the free mutex. -/
theorem Exclusive.acquire (h : Exclusive s) {u : θ} {p : Position ω ρ}
    (hp : t.positions = update s.positions u p) (ho : t.owner = some u) (hfree : s.owner = none)
    (hbehind : p.Holds) : Exclusive t := by
  intro v
  rw [hp, ho]
  by_cases hv : v = u
  · subst hv
    simp [Function.update_self, hbehind]
  · rw [Function.update_of_ne hv, h v, hfree]
    simp [Ne.symm hv]

theorem Position.holds_wake (c : κ) (p : Position ω ρ) : (p.wake ops c).Holds ↔ p.Holds := by
  cases p with
  | waiting o =>
    rw [Position.wake]
    split <;> simp [Position.Holds]
  | _ => rfl

omit [DecidableEq θ] in
theorem Exclusive.wake (h : Exclusive s) (c : κ)
    (hp : t.positions = fun u => (s.positions u).wake ops c) (ho : t.owner = s.owner) :
    Exclusive t := by
  intro v
  rw [hp, ho]
  exact (Position.holds_wake c _).trans (h v)

theorem Exclusive.advance (h : Exclusive s) (hstep : Advance ops s t) : Exclusive t := by
  cases hstep with
  | lock u o hp hfree => exact h.acquire rfl rfl hfree trivial
  | wait u o c hp _ _ => exact h.release rfl rfl (by rw [hp]; trivial) (fun hh => hh)
  | perform u o r shared hp _ => exact h.keep rfl rfl (by rw [hp]; trivial) trivial
  | unlock u o r hp => exact h.release rfl rfl (by rw [hp]; trivial) (fun hh => hh)
  | notifyOne u o r c v o' hp _ hv _ =>
    have hne : u ≠ v := by
      intro heq
      rw [heq, hv] at hp
      cases hp
    have hwoken : Exclusive { s with positions := update s.positions v (.woken o') } :=
      h.move rfl rfl (by rw [hv]; exact fun hh => hh) (fun hh => hh)
    refine hwoken.move rfl rfl ?_ (fun hh => hh)
    simp [Function.update_of_ne hne, hp, Position.Holds]
  | notifyNone u o r c hp _ _ =>
    exact h.move rfl rfl (by rw [hp]; exact fun hh => hh) (fun hh => hh)
  | notifyAll u o r c hp _ =>
    have hwoken : Exclusive { s with positions := fun u => (s.positions u).wake ops c } :=
      h.wake c rfl rfl
    refine hwoken.move rfl rfl ?_ (fun hh => hh)
    simp [hp, Position.wake, Position.Holds]

theorem Exclusive.step (h : Exclusive s) (hstep : Step ops s t) : Exclusive t := by
  cases hstep with
  | advance hstep => exact h.advance hstep
  | call u o hp => exact h.move rfl rfl (by rw [hp]; exact fun hh => hh) (fun hh => hh)
  | spurious u o hp => exact h.move rfl rfl (by rw [hp]; exact fun hh => hh) (fun hh => hh)

end Exclusive

/-! ### The waiting threads -/

/-- Only the operations that have a condition variable wait. -/
def OnConditions (ops : Operations σ ω κ ρ) (s : State σ ω ρ θ) : Prop :=
  ∀ t o, s.positions t = .waiting o → ∃ c, ops.waitsOn o = some c

theorem onConditions_initial (ops : Operations σ ω κ ρ) (a : σ) :
    OnConditions ops (State.initial a : State σ ω ρ θ) := fun _ _ h => by cases h

section OnConditions

variable [DecidableEq θ] [DecidableEq κ] {ops : Operations σ ω κ ρ} {s t : State σ ω ρ θ}

omit [DecidableEq κ] in
theorem OnConditions.move (h : OnConditions ops s) {u : θ} {p : Position ω ρ}
    (hp : t.positions = update s.positions u p)
    (hwait : ∀ o, p = .waiting o → ∃ c, ops.waitsOn o = some c) : OnConditions ops t := by
  intro v o hv
  rw [hp] at hv
  by_cases hvu : v = u
  · subst hvu
    rw [Function.update_self] at hv
    exact hwait o hv
  · rw [Function.update_of_ne hvu] at hv
    exact h v o hv

omit [DecidableEq θ] in
theorem OnConditions.wake (h : OnConditions ops s) (c : κ) :
    OnConditions ops { s with positions := fun u => (s.positions u).wake ops c } := by
  intro v o hv
  cases hpv : s.positions v with
  | waiting o' =>
    simp only [hpv, Position.wake] at hv
    by_cases hc : ops.waitsOn o' = some c
    · rw [if_pos hc] at hv
      cases hv
    · rw [if_neg hc] at hv
      cases hv
      exact h v o hpv
  | _ =>
    simp only [hpv, Position.wake] at hv
    cases hv

theorem OnConditions.step (h : OnConditions ops s) (hstep : Step ops s t) :
    OnConditions ops t := by
  cases hstep with
  | call u o hp => exact h.move rfl fun o' heq => by cases heq
  | spurious u o hp => exact h.move rfl fun o' heq => by cases heq
  | advance hstep =>
    cases hstep with
    | wait u o c hp hc _ =>
      refine h.move rfl fun o' heq => ?_
      cases heq
      exact ⟨c, hc⟩
    | notifyOne u o r c v o' hp _ hv _ =>
      have hwoken : OnConditions ops { s with positions := update s.positions v (.woken o') } :=
        h.move rfl fun o heq => by cases heq
      exact hwoken.move rfl fun o heq => by cases heq
    | notifyAll u o r c hp _ => exact (h.wake c).move rfl fun o heq => by cases heq
    | _ => exact h.move rfl fun o heq => by cases heq

end OnConditions

/-! ### One order of the operations -/

/-- The operations `events`, done one after the other, lead from `a` to `b` with these results. -/
inductive Replays (ops : Operations σ ω κ ρ) (a : σ) : List (θ × ω × ρ) → σ → Prop
  | nil : Replays ops a [] a
  | snoc {events : List (θ × ω × ρ)} {b c : σ} {t : θ} {o : ω} {r : ρ}
      (h : Replays ops a events b) (hdo : ops.attempt o b = some (r, c)) :
      Replays ops a (events ++ [(t, o, r)]) c

/-- What one operation keeps, holds behind all of them. -/
theorem Replays.invariant {ops : Operations σ ω κ ρ} {a b : σ} {events : List (θ × ω × ρ)}
    {I : List (θ × ω × ρ) → σ → Prop} (h : Replays ops a events b) (ha : I [] a)
    (hstep : ∀ events b t o r c, I events b → ops.attempt o b = some (r, c) →
      I (events ++ [(t, o, r)]) c) : I events b := by
  induction h with
  | nil => exact ha
  | snoc _ hdo ih => exact hstep _ _ _ _ _ _ ih hdo

section Recorded

variable [DecidableEq θ]

/-- The part of a thread in a list of operations. -/
def byThread (t : θ) (events : List (θ × ω × ρ)) : List (θ × ω × ρ) :=
  events.filter fun e => e.1 = t

/-- The guarded state is what the operations make of `a` in the order of the history, and each
thread has got their results, up to one that it has done and not returned from. -/
structure Recorded (ops : Operations σ ω κ ρ) (a : σ) (s : State σ ω ρ θ) : Prop where
  replays : Replays ops a s.history s.shared
  own : ∀ t, byThread t s.history = byThread t s.returned ++ (s.positions t).done t

theorem recorded_initial (ops : Operations σ ω κ ρ) (a : σ) :
    Recorded ops a (State.initial a : State σ ω ρ θ) where
  replays := .nil
  own _ := rfl

variable {ops : Operations σ ω κ ρ} {a : σ} {s t : State σ ω ρ θ}

/-- A thread moves, and no operation is done or returned from. -/
theorem Recorded.move (h : Recorded ops a s) {u : θ} {p : Position ω ρ}
    (hp : t.positions = update s.positions u p) (hshared : t.shared = s.shared)
    (hhistory : t.history = s.history) (hreturned : t.returned = s.returned)
    (hdone : p.done u = (s.positions u).done u) : Recorded ops a t where
  replays := by
    rw [hhistory, hshared]
    exact h.replays
  own v := by
    rw [hp, hhistory, hreturned, h.own v]
    by_cases hv : v = u
    · subst hv
      rw [Function.update_self, hdone]
    · rw [Function.update_of_ne hv]

theorem byThread_append (u : θ) (events : List (θ × ω × ρ)) (e : θ × ω × ρ) :
    byThread u (events ++ [e]) = byThread u events ++ (if e.1 = u then [e] else []) := by
  by_cases he : e.1 = u <;> simp [byThread, he]

/-- A thread returns from an operation that it has done. -/
theorem Recorded.finish (h : Recorded ops a s) {u : θ} {o : ω} {r : ρ}
    (hu : s.positions u = .notifying o r) (hp : t.positions = update s.positions u .outside)
    (hshared : t.shared = s.shared) (hhistory : t.history = s.history)
    (hreturned : t.returned = s.returned ++ [(u, o, r)]) : Recorded ops a t where
  replays := by
    rw [hhistory, hshared]
    exact h.replays
  own v := by
    rw [hp, hhistory, hreturned, h.own v, byThread_append]
    by_cases hv : v = u
    · subst hv
      simp [hu, Position.done]
    · simp [Function.update_of_ne hv, Ne.symm hv]

variable [DecidableEq κ]

omit [DecidableEq θ] in
theorem Position.done_wake (c : κ) (u : θ) (p : Position ω ρ) :
    (p.wake ops c).done u = p.done u := by
  cases p with
  | waiting o =>
    rw [Position.wake]
    split <;> rfl
  | _ => rfl

theorem Recorded.wake (h : Recorded ops a s) (c : κ)
    (hp : t.positions = fun u => (s.positions u).wake ops c) (hshared : t.shared = s.shared)
    (hhistory : t.history = s.history) (hreturned : t.returned = s.returned) :
    Recorded ops a t where
  replays := by
    rw [hhistory, hshared]
    exact h.replays
  own v := by
    rw [hp, hhistory, hreturned, Position.done_wake, h.own v]

theorem Recorded.advance (h : Recorded ops a s) (hstep : Advance ops s t) : Recorded ops a t := by
  cases hstep with
  | lock u o hp _ =>
    refine h.move rfl rfl rfl rfl ?_
    cases hp with
    | inl hp => rw [hp]; rfl
    | inr hp => rw [hp]; rfl
  | wait u o c hp _ _ => exact h.move rfl rfl rfl rfl (by rw [hp]; rfl)
  | perform u o r shared hp hdo =>
    refine ⟨h.replays.snoc hdo, fun v => ?_⟩
    rw [byThread_append, h.own v]
    by_cases hv : v = u
    · subst hv
      simp [hp, Position.done]
    · simp [Function.update_of_ne hv, Ne.symm hv]
  | unlock u o r hp => exact h.move rfl rfl rfl rfl (by rw [hp]; rfl)
  | notifyOne u o r c v o' hp _ hv _ =>
    have hne : u ≠ v := by
      intro heq
      rw [heq, hv] at hp
      cases hp
    have hwoken : Recorded ops a { s with positions := update s.positions v (.woken o') } :=
      h.move rfl rfl rfl rfl (by rw [hv]; rfl)
    refine hwoken.finish ?_ rfl rfl rfl rfl
    simp [Function.update_of_ne hne, hp]
  | notifyNone u o r c hp _ _ => exact h.finish hp rfl rfl rfl rfl
  | notifyAll u o r c hp _ =>
    have hwoken : Recorded ops a { s with positions := fun u => (s.positions u).wake ops c } :=
      h.wake c rfl rfl rfl rfl
    refine hwoken.finish (o := o) (r := r) ?_ rfl rfl rfl rfl
    simp [hp, Position.wake]

theorem Recorded.step (h : Recorded ops a s) (hstep : Step ops s t) : Recorded ops a t := by
  cases hstep with
  | advance hstep => exact h.advance hstep
  | call u o hp => exact h.move rfl rfl rfl rfl (by rw [hp]; rfl)
  | spurious u o hp => exact h.move rfl rfl rfl rfl (by rw [hp]; rfl)

end Recorded

/-! ### No lost wake-ups -/

/-- How many threads the guarded state has room for on each condition variable: none while its
operations wait, one less behind each of them, and more only behind a notification. -/
structure Rooms (ops : Operations σ ω κ ρ) (room : κ → σ → Nat) : Prop where
  empty : ∀ {o c a}, ops.waitsOn o = some c → ops.attempt o a = none → room c a = 0
  takes : ∀ {o c a r b}, ops.waitsOn o = some c → ops.attempt o a = some (r, b) →
    room c b < room c a
  one : ∀ {o c a r b}, ops.signals o = (c, .one) → ops.attempt o a = some (r, b) →
    room c b ≤ room c a + 1
  others : ∀ {o c a r b}, (ops.signals o).1 ≠ c → ops.attempt o a = some (r, b) →
    room c b ≤ room c a

namespace Position

/-- The thread tests the predicate of `c` again, or wakes one of those that do. -/
def credit [DecidableEq κ] (ops : Operations σ ω κ ρ) (c : κ) : Position ω ρ → Nat
  | .inside o | .woken o => if ops.waitsOn o = some c then 1 else 0
  | .leaving o _ | .notifying o _ => if ops.signals o = (c, .one) then 1 else 0
  | _ => 0

/-- The thread wakes all those that wait on `c`. -/
def WakesAll (ops : Operations σ ω κ ρ) (c : κ) : Position ω ρ → Prop
  | .leaving o _ | .notifying o _ => ops.signals o = (c, .all)
  | _ => False

end Position

section Credited

variable [DecidableEq θ] [DecidableEq κ] [Fintype θ]

def credits (ops : Operations σ ω κ ρ) (c : κ) (positions : θ → Position ω ρ) : Nat :=
  ∑ t, (positions t).credit ops c

/-- While threads wait on `c`, there is room for no more of them than threads are on the way, or
all of them are about to be woken. -/
def Credited (ops : Operations σ ω κ ρ) (room : κ → σ → Nat) (s : State σ ω ρ θ) : Prop :=
  ∀ c, (∃ t, (s.positions t).OnCondition ops c) →
    (∃ t, (s.positions t).WakesAll ops c) ∨ room c s.shared ≤ credits ops c s.positions

variable {ops : Operations σ ω κ ρ} {room : κ → σ → Nat} {s t : State σ ω ρ θ}

theorem sum_update_add (f : Position ω ρ → Nat) (positions : θ → Position ω ρ) (u : θ)
    (p : Position ω ρ) :
    ∑ v, f (update positions u p v) + f (positions u) = ∑ v, f (positions v) + f p := by
  have hu : u ∈ (Finset.univ : Finset θ) := Finset.mem_univ u
  rw [← Finset.add_sum_erase _ _ hu, ← Finset.add_sum_erase _ (fun v => f (positions v)) hu,
    Function.update_self]
  have hrest : ∑ v ∈ Finset.univ.erase u, f (update positions u p v) =
      ∑ v ∈ Finset.univ.erase u, f (positions v) := by
    refine Finset.sum_congr rfl fun v hv => ?_
    rw [Function.update_of_ne (Finset.ne_of_mem_erase hv)]
  omega

variable (ops) in
theorem credits_update (c : κ) (positions : θ → Position ω ρ) (u : θ) (p : Position ω ρ) :
    credits ops c (update positions u p) + (positions u).credit ops c =
      credits ops c positions + p.credit ops c :=
  sum_update_add (Position.credit ops c) positions u p

omit [DecidableEq θ] in
/-- There are no fewer credits and no more room, and nobody else waits. -/
theorem Credited.of_le (h : Credited ops room s) {c : κ}
    (hwait : (∃ u, (t.positions u).OnCondition ops c) → ∃ u, (s.positions u).OnCondition ops c)
    (hall : (∃ u, (s.positions u).WakesAll ops c) → ∃ u, (t.positions u).WakesAll ops c)
    (hroom : room c t.shared + credits ops c s.positions ≤
      room c s.shared + credits ops c t.positions) :
    (∃ u, (t.positions u).OnCondition ops c) →
      (∃ u, (t.positions u).WakesAll ops c) ∨ room c t.shared ≤ credits ops c t.positions := by
  intro hw
  cases h c (hwait hw) with
  | inl hex => exact .inl (hall hex)
  | inr hle => exact .inr (by omega)

omit [Fintype θ] [DecidableEq κ] in
/-- Who waits behind the move of a thread that does not wait then. -/
theorem onCondition_update {c : κ} {positions : θ → Position ω ρ} {u : θ} {p : Position ω ρ}
    (hp : ¬ p.OnCondition ops c) (h : ∃ v, (update positions u p v).OnCondition ops c) :
    ∃ v, (positions v).OnCondition ops c := by
  obtain ⟨v, hv⟩ := h
  by_cases hvu : v = u
  · subst hvu
    rw [Function.update_self] at hv
    exact absurd hv hp
  · rw [Function.update_of_ne hvu] at hv
    exact ⟨v, hv⟩

omit [Fintype θ] [DecidableEq κ] in
/-- Who is about to wake all behind the move of a thread. -/
theorem wakesAll_update {c : κ} {positions : θ → Position ω ρ} {u : θ} {p : Position ω ρ}
    (hp : (positions u).WakesAll ops c → p.WakesAll ops c)
    (h : ∃ v, (positions v).WakesAll ops c) : ∃ v, (update positions u p v).WakesAll ops c := by
  obtain ⟨v, hv⟩ := h
  by_cases hvu : v = u
  · subst hvu
    exact ⟨v, by rw [Function.update_self]; exact hp hv⟩
  · exact ⟨v, by rwa [Function.update_of_ne hvu]⟩

/-- A thread moves to a place where it does not wait on `c` and has no fewer credits. -/
theorem Credited.move (h : Credited ops room s) {c : κ} {u : θ} {p : Position ω ρ}
    (hp : t.positions = update s.positions u p) (hwait : ¬ p.OnCondition ops c)
    (hall : (s.positions u).WakesAll ops c → p.WakesAll ops c)
    (hroom : room c t.shared + (s.positions u).credit ops c ≤ room c s.shared + p.credit ops c) :
    (∃ u, (t.positions u).OnCondition ops c) →
      (∃ u, (t.positions u).WakesAll ops c) ∨ room c t.shared ≤ credits ops c t.positions := by
  have hcredits := credits_update ops c s.positions u p
  refine h.of_le ?_ ?_ ?_
  · rw [hp]
    exact onCondition_update hwait
  · rw [hp]
    exact wakesAll_update hall
  · rw [hp]
    omega

theorem Credited.wait (hrooms : Rooms ops room) (h : Credited ops room s) {u : θ} {o : ω} {d : κ}
    (hu : s.positions u = .inside o) (hd : ops.waitsOn o = some d)
    (hfalse : ops.attempt o s.shared = none)
    (hp : t.positions = update s.positions u (.waiting o)) (hshared : t.shared = s.shared) :
    Credited ops room t := by
  intro c hw
  by_cases hc : d = c
  · subst hc
    have hempty := hrooms.empty hd hfalse
    exact .inr (by rw [hshared, hempty]; exact Nat.zero_le _)
  · refine h.move hp ?_ ?_ ?_ hw
    · intro hon
      rw [Position.OnCondition, hd] at hon
      exact hc (Option.some.inj hon)
    · rw [hu]
      exact fun hall => hall
    · rw [hshared, hu]
      simp [Position.credit, hd, hc]

theorem Credited.perform (hrooms : Rooms ops room) (h : Credited ops room s) {u : θ} {o : ω}
    {r : ρ} {b : σ} (hu : s.positions u = .inside o) (hdo : ops.attempt o s.shared = some (r, b))
    (hp : t.positions = update s.positions u (.leaving o r)) (hshared : t.shared = b) :
    Credited ops room t := by
  intro c hw
  by_cases hall : ops.signals o = (c, .all)
  · refine .inl ⟨u, ?_⟩
    rw [hp, Function.update_self]
    exact hall
  refine h.move hp (fun hh => hh) (by rw [hu]; exact fun hh => hh.elim) ?_ hw
  rw [hshared, hu]
  by_cases hone : ops.signals o = (c, .one)
  · -- the thread that is about to be notified takes the room that the operation has made
    have hroom := hrooms.one hone hdo
    by_cases hc : ops.waitsOn o = some c
    · have hless := hrooms.takes hc hdo
      simp only [Position.credit, hone, hc, if_true]
      omega
    · simp only [Position.credit, hone, hc, if_true, if_false]
      omega
  · have hne : (ops.signals o).1 ≠ c := by
      intro heq
      cases hk : (ops.signals o).2 with
      | one => exact hone (Prod.ext heq hk)
      | all => exact hall (Prod.ext heq hk)
    have hroom := hrooms.others hne hdo
    by_cases hc : ops.waitsOn o = some c
    · have hless := hrooms.takes hc hdo
      simp only [Position.credit, hone, hc, if_true, if_false]
      omega
    · simp only [Position.credit, hone, hc, if_false]
      omega

theorem Credited.notifyOne (h : Credited ops room s) {u v : θ} {o o' : ω} {r : ρ} {d : κ}
    (hu : s.positions u = .notifying o r) (hs : ops.signals o = (d, .one))
    (hv : s.positions v = .waiting o') (hd : ops.waitsOn o' = some d)
    (hp : t.positions = update (update s.positions v (.woken o')) u .outside)
    (hshared : t.shared = s.shared) : Credited ops room t := by
  intro c hw
  have hne : u ≠ v := by
    intro heq
    rw [heq, hv] at hu
    cases hu
  have hwoken := credits_update ops c s.positions v (.woken o')
  have hout := credits_update ops c (update s.positions v (.woken o')) u .outside
  rw [Function.update_of_ne hne, hu] at hout
  rw [hv] at hwoken
  refine h.of_le ?_ ?_ ?_ hw
  · rw [hp]
    intro hex
    exact onCondition_update (p := .woken o') (fun hh => hh)
      (onCondition_update (p := .outside) (fun hh => hh) hex)
  · rw [hp]
    refine fun hex => wakesAll_update ?_ (wakesAll_update (by rw [hv]; exact fun hh => hh) hex)
    rw [Function.update_of_ne hne, hu]
    intro hall
    rw [Position.WakesAll, hs] at hall
    cases hall
  · rw [hshared, hp]
    -- the credit of the notification goes to the thread that it wakes
    by_cases hc : d = c
    · subst hc
      simp only [Position.credit, hs, hd, if_true] at hwoken hout
      omega
    · have hone : ops.signals o ≠ (c, .one) := by
        rw [hs]
        exact fun heq => hc (congrArg Prod.fst heq)
      simp only [Position.credit, hone, hd, Option.some.injEq, hc, if_false] at hwoken hout
      omega

theorem Credited.notifyNone (h : Credited ops room s) {u : θ} {o : ω} {r : ρ} {d : κ}
    (hu : s.positions u = .notifying o r) (hs : ops.signals o = (d, .one))
    (hnone : ∀ v, ¬ (s.positions v).OnCondition ops d)
    (hp : t.positions = update s.positions u .outside) (hshared : t.shared = s.shared) :
    Credited ops room t := by
  intro c hw
  by_cases hc : d = c
  · subst hc
    rw [hp] at hw
    obtain ⟨v, hv⟩ := onCondition_update (p := .outside) (fun hh => hh) hw
    exact absurd hv (hnone v)
  · refine h.move hp (fun hh => hh) ?_ ?_ hw
    · rw [hu]
      intro hall
      rw [Position.WakesAll, hs] at hall
      cases hall
    · rw [hshared, hu]
      simp [Position.credit, hs, hc]

theorem Position.not_onCondition_wake (c : κ) (p : Position ω ρ) :
    ¬ (p.wake ops c).OnCondition ops c := by
  cases p with
  | waiting o =>
    by_cases hc : ops.waitsOn o = some c <;> simp [Position.wake, Position.OnCondition, hc]
  | _ => exact fun hh => hh

/-- A broadcast does not concern the other condition variables. -/
theorem Position.wake_of_ne {c d : κ} (hne : d ≠ c) (p : Position ω ρ) :
    ((p.wake ops d).OnCondition ops c ↔ p.OnCondition ops c) ∧
      ((p.wake ops d).WakesAll ops c ↔ p.WakesAll ops c) ∧
      (p.wake ops d).credit ops c = p.credit ops c := by
  cases p with
  | waiting o =>
    by_cases hd : ops.waitsOn o = some d <;>
      simp [Position.wake, Position.OnCondition, Position.WakesAll, Position.credit, hd, hne]
  | _ => exact ⟨Iff.rfl, Iff.rfl, rfl⟩

theorem Credited.notifyAll (h : Credited ops room s) {u : θ} {o : ω} {r : ρ} {d : κ}
    (hu : s.positions u = .notifying o r) (hs : ops.signals o = (d, .all))
    (hp : t.positions = update (fun v => (s.positions v).wake ops d) u .outside)
    (hshared : t.shared = s.shared) : Credited ops room t := by
  intro c hw
  by_cases hc : d = c
  · subst hc
    rw [hp] at hw
    obtain ⟨v, hv⟩ := onCondition_update (p := .outside) (fun hh => hh) hw
    exact absurd hv (Position.not_onCondition_wake d _)
  · have hwake : (s.positions u).wake ops d = .notifying o r := by
      rw [hu]
      rfl
    have hcredits : credits ops c (fun v => (s.positions v).wake ops d) =
        credits ops c s.positions :=
      Finset.sum_congr rfl fun v _ => (Position.wake_of_ne hc _).2.2
    have hout := credits_update ops c (fun v => (s.positions v).wake ops d) u .outside
    refine h.of_le ?_ ?_ ?_ hw
    · rw [hp]
      intro hex
      obtain ⟨v, hv⟩ := onCondition_update (p := .outside) (fun hh => hh) hex
      exact ⟨v, (Position.wake_of_ne hc _).1.mp hv⟩
    · rw [hp]
      intro hex
      obtain ⟨v, hv⟩ := hex
      refine wakesAll_update ?_ ⟨v, (Position.wake_of_ne hc _).2.1.mpr hv⟩
      intro hall
      rw [hwake, Position.WakesAll, hs] at hall
      exact absurd (congrArg Prod.fst hall) hc
    · rw [hshared, hp]
      rw [hwake] at hout
      have hother : ops.signals o ≠ (c, .one) := by
        rw [hs]
        exact fun heq => hc (congrArg Prod.fst heq)
      simp only [Position.credit, hother, if_false] at hout
      omega

theorem Credited.advance (hrooms : Rooms ops room) (h : Credited ops room s)
    (hstep : Advance ops s t) : Credited ops room t := by
  cases hstep with
  | lock u o hp _ =>
    intro c hw
    refine h.move rfl (fun hh => hh) ?_ ?_ hw
    · cases hp with
      | inl hp => rw [hp]; exact fun hh => hh
      | inr hp => rw [hp]; exact fun hh => hh
    · cases hp with
      | inl hp => rw [hp]; exact Nat.add_le_add_left (Nat.zero_le _) _
      | inr hp => rw [hp]; exact Nat.le_refl _
  | wait u o c hp hc hfalse => exact h.wait hrooms hp hc hfalse rfl rfl
  | perform u o r shared hp hdo => exact h.perform hrooms hp hdo rfl rfl
  | unlock u o r hp =>
    intro c hw
    refine h.move rfl (fun hh => hh) ?_ ?_ hw
    · rw [hp]
      exact fun hh => hh
    · rw [hp]
      exact Nat.le_refl _
  | notifyOne u o r c v o' hp hs hv hc => exact h.notifyOne hp hs hv hc rfl rfl
  | notifyNone u o r c hp hs hnone => exact h.notifyNone hp hs hnone rfl rfl
  | notifyAll u o r c hp hs => exact h.notifyAll hp hs rfl rfl

theorem Credited.step (hrooms : Rooms ops room) (h : Credited ops room s)
    (hstep : Step ops s t) : Credited ops room t := by
  cases hstep with
  | advance hstep => exact h.advance hrooms hstep
  | call u o hp =>
    intro c hw
    refine h.move rfl (fun hh => hh) ?_ ?_ hw
    · rw [hp]
      exact fun hh => hh
    · rw [hp]
      exact Nat.le_refl _
  | spurious u o hp =>
    intro c hw
    refine h.move rfl (fun hh => hh) ?_ ?_ hw
    · rw [hp]
      exact fun hh => hh
    · rw [hp]
      exact Nat.add_le_add_left (Nat.zero_le _) _

omit [DecidableEq θ] in
theorem credited_initial (a : σ) : Credited ops room (State.initial a : State σ ω ρ θ) := by
  intro c hw
  obtain ⟨u, hu⟩ := hw
  exact absurd hu (fun hh => hh)

end Credited

/-! ### How long the operations take -/

/-- A bound on the steps that are left of an operation among `n` threads, with those that its
notification causes elsewhere. -/
def Position.work (n : Nat) : Position ω ρ → Nat
  | .outside => 0
  | .notifying _ _ => 2 * n + 1
  | .leaving _ _ => 2 * n + 2
  | .waiting _ => 2 * n + 3
  | .inside _ => 2 * n + 4
  | .woken _ | .entering _ => 2 * n + 5

/-- No thread can go on in its operation. -/
def Settled [DecidableEq θ] [DecidableEq κ] (ops : Operations σ ω κ ρ)
    (s : State σ ω ρ θ) : Prop :=
  ∀ t, ¬ Advance ops s t

section Work

variable [Fintype θ]

def State.work (s : State σ ω ρ θ) : Nat := ∑ t, (s.positions t).work (Fintype.card θ)

theorem State.work_le (s : State σ ω ρ θ) :
    s.work ≤ Fintype.card θ * (2 * Fintype.card θ + 5) := by
  have hle : ∀ t ∈ (Finset.univ : Finset θ),
      (s.positions t).work (Fintype.card θ) ≤ 2 * Fintype.card θ + 5 := by
    intro t _
    cases s.positions t <;> simp [Position.work]
  have hsum := Finset.sum_le_card_nsmul _ _ _ hle
  rwa [Finset.card_univ, smul_eq_mul] at hsum

variable [DecidableEq θ] [DecidableEq κ] {ops : Operations σ ω κ ρ} {s t : State σ ω ρ θ}

omit [DecidableEq κ] in
theorem work_update {u : θ} {p : Position ω ρ} (hp : t.positions = update s.positions u p) :
    t.work + (s.positions u).work (Fintype.card θ) = s.work + p.work (Fintype.card θ) := by
  rw [State.work, hp]
  exact sum_update_add (Position.work (Fintype.card θ)) s.positions u p

variable (ops) in
/-- A broadcast gives two steps back to each thread that it wakes. -/
theorem work_wake (c : κ) (u : θ) (hu : ∀ o, s.positions u ≠ .waiting o) :
    ∑ v, ((s.positions v).wake ops c).work (Fintype.card θ) + 2 ≤
      s.work + 2 * Fintype.card θ := by
  have hone : ∀ v, ((s.positions v).wake ops c).work (Fintype.card θ) ≤
      (s.positions v).work (Fintype.card θ) + 2 := by
    intro v
    cases s.positions v with
    | waiting o =>
      by_cases hc : ops.waitsOn o = some c <;> simp [Position.wake, Position.work, hc]
    | _ => exact Nat.le_add_right _ _
  have hself : ((s.positions u).wake ops c).work (Fintype.card θ) =
      (s.positions u).work (Fintype.card θ) := by
    cases hpu : s.positions u with
    | waiting o => exact absurd hpu (hu o)
    | _ => rfl
  have hmem : u ∈ (Finset.univ : Finset θ) := Finset.mem_univ u
  have hcard : (Finset.univ.erase u).card + 1 = Fintype.card θ := by
    rw [Finset.card_erase_add_one hmem, Finset.card_univ]
  have hrest : ∑ v ∈ Finset.univ.erase u, ((s.positions v).wake ops c).work (Fintype.card θ) ≤
      ∑ v ∈ Finset.univ.erase u, ((s.positions v).work (Fintype.card θ) + 2) :=
    Finset.sum_le_sum fun v _ => hone v
  rw [Finset.sum_add_distrib, Finset.sum_const, smul_eq_mul] at hrest
  rw [State.work, ← Finset.add_sum_erase _ _ hmem,
    ← Finset.add_sum_erase _ (fun v => (s.positions v).work (Fintype.card θ)) hmem, hself]
  omega

theorem Advance.work_lt (hstep : Advance ops s t) : t.work < s.work := by
  cases hstep with
  | lock u o hp _ =>
    have hwork := work_update (s := s) (t := { s with
      owner := some u
      positions := update s.positions u (.inside o) }) rfl
    cases hp with
    | inl hp => rw [hp, Position.work, Position.work] at hwork; omega
    | inr hp => rw [hp, Position.work, Position.work] at hwork; omega
  | wait u o c hp _ _ =>
    have hwork := work_update (s := s) (t := { s with
      owner := none
      positions := update s.positions u (.waiting o) }) rfl
    rw [hp, Position.work, Position.work] at hwork
    omega
  | perform u o r shared hp _ =>
    have hwork := work_update (s := s) (t := { s with
      shared := shared
      positions := update s.positions u (.leaving o r)
      history := s.history ++ [(u, o, r)] }) rfl
    rw [hp, Position.work, Position.work] at hwork
    omega
  | unlock u o r hp =>
    have hwork := work_update (s := s) (t := { s with
      owner := none
      positions := update s.positions u (.notifying o r) }) rfl
    rw [hp, Position.work, Position.work] at hwork
    omega
  | notifyOne u o r c v o' hp _ hv _ =>
    have hne : u ≠ v := by
      intro heq
      rw [heq, hv] at hp
      cases hp
    have hwoken := work_update (s := s) (t := { s with
      positions := update s.positions v (.woken o') }) rfl
    have hout := work_update (s := { s with positions := update s.positions v (.woken o') })
      (t := { s with
        positions := update (update s.positions v (.woken o')) u .outside
        returned := s.returned ++ [(u, o, r)] }) rfl
    have hcard : 0 < Fintype.card θ := Fintype.card_pos_iff.mpr ⟨u⟩
    rw [hv, Position.work, Position.work] at hwoken
    simp only [Function.update_of_ne hne, hp, Position.work] at hout
    omega
  | notifyNone u o r c hp _ _ =>
    have hwork := work_update (s := s) (t := { s with
      positions := update s.positions u .outside
      returned := s.returned ++ [(u, o, r)] }) rfl
    rw [hp, Position.work, Position.work] at hwork
    omega
  | notifyAll u o r c hp _ =>
    have hwoken := work_wake ops (s := s) c u (by simp [hp])
    have hout := work_update (s := { s with
        positions := fun v => (s.positions v).wake ops c })
      (t := { s with
        positions := update (fun v => (s.positions v).wake ops c) u .outside
        returned := s.returned ++ [(u, o, r)] }) rfl
    simp only [hp, Position.wake, Position.work, State.work] at hout hwoken ⊢
    omega

/-- The operations that have begun take a bounded number of steps while no other one begins and
no wait ends by itself. -/
theorem length_le_of_advance {run : Nat → State σ ω ρ θ} {n : Nat}
    (hrun : ∀ i < n, Advance ops (run i) (run (i + 1))) :
    n ≤ Fintype.card θ * (2 * Fintype.card θ + 5) := by
  have hwork : ∀ i ≤ n, i + (run i).work ≤ (run 0).work := by
    intro i hi
    induction i with
    | zero => omega
    | succ i ih =>
      have hlt := (hrun i hi).work_lt
      have hprevious := ih (by omega)
      omega
  have hlast := hwork n (Nat.le_refl n)
  have hfirst := (run 0).work_le
  omega

/-- Where no thread can go on, each is outside or waits. -/
theorem outside_or_waiting_of_settled (h : Exclusive s) (hsettled : Settled ops s) (u : θ) :
    s.positions u = .outside ∨ ∃ o, s.positions u = .waiting o := by
  have hfree : s.owner = none := by
    cases howner : s.owner with
    | none => rfl
    | some v =>
      have hholds := (h v).mpr howner
      cases hv : s.positions v with
      | inside o =>
        cases hdo : ops.attempt o s.shared with
        | none =>
          obtain ⟨c, hc⟩ := ops.waits o s.shared hdo
          exact absurd (.wait v o c hv hc hdo) (hsettled _)
        | some out => exact absurd (.perform v o out.1 out.2 hv hdo) (hsettled _)
      | leaving o r => exact absurd (.unlock v o r hv) (hsettled _)
      | _ =>
        rw [hv] at hholds
        exact hholds.elim
  cases hu : s.positions u with
  | outside => exact .inl rfl
  | waiting o => exact .inr ⟨o, rfl⟩
  | entering o => exact absurd (.lock u o (.inl hu) hfree) (hsettled _)
  | woken o => exact absurd (.lock u o (.inr hu) hfree) (hsettled _)
  | inside o =>
    have hholds := (h u).mp (by rw [hu]; trivial)
    rw [hfree] at hholds
    cases hholds
  | leaving o r => exact absurd (.unlock u o r hu) (hsettled _)
  | notifying o r =>
    cases hs : ops.signals o with
    | mk c wakes =>
      cases wakes with
      | all => exact absurd (.notifyAll u o r c hu hs) (hsettled _)
      | one =>
        by_cases hex : ∃ v, (s.positions v).OnCondition ops c
        · obtain ⟨v, hv⟩ := hex
          cases hpv : s.positions v with
          | waiting o' =>
            rw [hpv] at hv
            exact absurd (.notifyOne u o r c v o' hu hs hpv hv) (hsettled _)
          | _ =>
            rw [hpv] at hv
            exact hv.elim
        · exact absurd (.notifyNone u o r c hu hs fun v hv => hex ⟨v, hv⟩) (hsettled _)

/-- No wake-up is lost: where no thread can go on, a thread that waits has no room. -/
theorem room_eq_zero_of_settled {room : κ → σ → Nat} (h : Exclusive s)
    (hcredited : Credited ops room s) (hsettled : Settled ops s) {u : θ} {o : ω} {c : κ}
    (hu : s.positions u = .waiting o) (hc : ops.waitsOn o = some c) : room c s.shared = 0 := by
  have hplaces := outside_or_waiting_of_settled h hsettled
  have hnone : credits ops c s.positions = 0 := by
    refine Finset.sum_eq_zero fun v _ => ?_
    cases hplaces v with
    | inl hv => rw [hv]; rfl
    | inr hv =>
      obtain ⟨o', hv⟩ := hv
      rw [hv]
      rfl
  cases hcredited c ⟨u, by rw [hu]; exact hc⟩ with
  | inl hall =>
    obtain ⟨v, hv⟩ := hall
    cases hplaces v with
    | inl hout =>
      rw [hout] at hv
      exact hv.elim
    | inr hwaits =>
      obtain ⟨o', hwaits⟩ := hwaits
      rw [hwaits] at hv
      exact hv.elim
  | inr hle => omega

end Work

end XubinhServer.Monitor

import Mathlib.Logic.Function.Basic
import XubinhServer.LogCollector

/-! Threads that end the process with a `LOG_FATAL`, beside the destructor of the collector. All of
them go through `_stop`, which lets through only the first one. -/
namespace XubinhServer.LogCollector

open Transition

/-- Where a thread is in `_stop`: outside, before the exchange of `_need_stop`, in the join of the
background thread, or before `fflush`. -/
inductive Position where
  | outside
  | exchanging (alsoNeedAbort : Bool)
  | joining (alsoNeedAbort : Bool)
  | flushing (alsoNeedAbort : Bool)
  deriving DecidableEq, Repr

/-- The collector and the threads. `returned` are those that a `LOG_FATAL` has returned to. -/
structure Process (Thread : Type) where
  log : State
  positions : Thread → Position
  destroyed : Bool
  returned : List Thread
  ended : Bool

namespace Process

variable {Thread : Type} [DecidableEq Thread]

def initial : Process Thread := ⟨.initial, fun _ => .outside, false, [], false⟩

def move (p : Process Thread) (thread : Thread) (position : Position) : Process Thread :=
  { p with positions := Function.update p.positions thread position }

/-- The destructor of a `LogBuilder` of the level `FATAL`. -/
def fatal (p : Process Thread) (thread : Thread) (entry : List UInt8) : Process Thread :=
  { p with log := p.log.take entry }.move thread (.exchanging true)

/-- The destructor of the collector. -/
def destroy (p : Process Thread) (thread : Thread) : Process Thread :=
  { p with destroyed := true }.move thread (.exchanging false)

/-- `compare_exchange_strong` on `_need_stop`, and the `return` where it fails. -/
def exchange (p : Process Thread) (thread : Thread) (alsoNeedAbort : Bool) : Process Thread :=
  if p.log.collector.needStop then
    { p with returned := if alsoNeedAbort then thread :: p.returned else p.returned }.move thread
      .outside
  else
    { p with log := { p.log with collector := { p.log.collector with needStop := true } } }.move
      thread (.joining alsoNeedAbort)

/-- The end of `_stop`, behind the join and `fflush`. -/
def leave (p : Process Thread) (thread : Thread) (alsoNeedAbort : Bool) : Process Thread :=
  if alsoNeedAbort then { p with ended := true } else p.move thread .outside

def Alive (p : Process Thread) : Prop := p.ended = false ∧ p.log.fault = none

/-- A thread goes on, or the collector does, whose flag only the exchange touches. -/
inductive Step : Process Thread → Process Thread → Prop
  | log {p : Process Thread} (log : State) (hp : p.Alive) (hlog : LogCollector.Step p.log log)
      (hflag : log.collector.needStop = p.log.collector.needStop) : Step p { p with log := log }
  | fatal {p : Process Thread} (thread : Thread) (entry : List UInt8) (hp : p.Alive)
      (hposition : p.positions thread = .outside) : Step p (p.fatal thread entry)
  | destroy {p : Process Thread} (thread : Thread) (hp : p.Alive)
      (hposition : p.positions thread = .outside) (honce : p.destroyed = false) :
      Step p (p.destroy thread)
  | exchange {p : Process Thread} (thread : Thread) (alsoNeedAbort : Bool) (hp : p.Alive)
      (hposition : p.positions thread = .exchanging alsoNeedAbort) :
      Step p (p.exchange thread alsoNeedAbort)
  | join {p : Process Thread} (thread : Thread) (alsoNeedAbort : Bool)
      (entriesTaken : List (List UInt8)) (hp : p.Alive)
      (hposition : p.positions thread = .joining alsoNeedAbort)
      (hjoined : p.log.background.phase = .returned entriesTaken) :
      Step p (p.move thread (.flushing alsoNeedAbort))
  | leave {p : Process Thread} (thread : Thread) (alsoNeedAbort : Bool) (hp : p.Alive)
      (hposition : p.positions thread = .flushing alsoNeedAbort) :
      Step p (p.leave thread alsoNeedAbort)

/-- Nobody has asked for the end yet when a `LOG_FATAL` gets to its exchange. -/
def First (p q : Process Thread) : Prop :=
  ∀ thread, p.positions thread = .exchanging true → q.positions thread ≠ .exchanging true →
    p.log.collector.needStop = false

variable {p q : Process Thread} {thread other : Thread} {position : Position}

theorem move_positions_same : (p.move thread position).positions thread = position := by
  simp [move]

theorem move_positions_other (h : other ≠ thread) :
    (p.move thread position).positions other = p.positions other := by
  simp [move, h]

/-- A step without the exchange of a `LOG_FATAL` returns to none. -/
theorem returned_step (hstep : Step p q) : q.returned = p.returned ∨
    ∃ thread, p.positions thread = .exchanging true ∧ p.log.collector.needStop = true ∧
      q.positions thread = .outside ∧ q.returned = thread :: p.returned := by
  cases hstep with
  | log log _ _ _ => exact .inl rfl
  | fatal thread entry _ _ => exact .inl rfl
  | destroy thread _ _ _ => exact .inl rfl
  | join thread alsoNeedAbort _ _ _ _ => exact .inl rfl
  | leave thread alsoNeedAbort _ _ =>
    left
    rw [leave]
    split <;> rfl
  | exchange thread alsoNeedAbort _ hposition =>
    rw [exchange]
    split
    · rename_i hflag
      cases alsoNeedAbort with
      | false => exact .inl rfl
      | true => exact .inr ⟨thread, hposition, hflag, move_positions_same, rfl⟩
    · exact .inl rfl

/-- A thread that stands before the exchange of a `LOG_FATAL` is moved by nothing else. -/
theorem exchanging_step (hstep : Step p q) (hbefore : p.positions thread = .exchanging true)
    (hafter : q.positions thread ≠ .exchanging true) : q = p.exchange thread true := by
  have hstays : ∀ {r : Process Thread} {moved : Thread} {position before : Position},
      p.positions moved = before → before ≠ .exchanging true → r.positions = p.positions →
      (r.move moved position).positions thread = .exchanging true := by
    intro r moved position before hmoved hother hr
    have hne : thread ≠ moved := fun heq => hother (hmoved.symm.trans (heq ▸ hbefore))
    rw [move_positions_other hne, hr, hbefore]
  cases hstep with
  | log log _ _ _ => exact absurd hbefore hafter
  | fatal moved entry _ hposition =>
    exact absurd (hstays hposition (by decide) rfl) hafter
  | destroy moved _ hposition _ =>
    exact absurd (hstays hposition (by decide) rfl) hafter
  | join moved alsoNeedAbort _ _ hposition _ =>
    exact absurd (hstays hposition (by simp) rfl) hafter
  | leave moved alsoNeedAbort _ hposition =>
    rw [leave] at hafter
    split at hafter
    · exact absurd hbefore hafter
    · exact absurd (hstays hposition (by simp) rfl) hafter
  | exchange moved alsoNeedAbort _ hposition =>
    by_cases hsame : thread = moved
    · subst hsame
      cases hbefore.symm.trans hposition
      rfl
    · rw [exchange] at hafter
      split at hafter
      · rw [move_positions_other hsame] at hafter
        exact absurd hbefore hafter
      · rw [move_positions_other hsame] at hafter
        exact absurd hbefore hafter

theorem exchange_of_late (hlate : p.log.collector.needStop = true) :
    (p.exchange thread true).returned = thread :: p.returned := by
  rw [exchange, if_pos hlate]
  rfl

theorem first_of_returned (hstep : Step p q) (hreturned : q.returned = []) : First p q := by
  intro thread hbefore hafter
  rw [exchanging_step hstep hbefore hafter] at hreturned
  by_contra hlate
  rw [exchange_of_late ((Bool.not_eq_false _).mp hlate)] at hreturned
  cases hreturned

theorem returned_of_first (hstep : Step p q) (hfirst : First p q) : q.returned = p.returned := by
  cases returned_step hstep with
  | inl hsame => exact hsame
  | inr hlate =>
    obtain ⟨thread, hbefore, hlate, hafter, _⟩ := hlate
    have hnotLate := hfirst thread hbefore (by rw [hafter]; decide)
    exact absurd (hlate.symm.trans hnotLate) (by decide)

theorem returned_of_returned (hstep : Step p q) (hreturned : q.returned = []) :
    p.returned = [] := by
  rw [← hreturned]
  exact (returned_of_first hstep (first_of_returned hstep hreturned)).symm

/-- No `LOG_FATAL` returns in a run if and only if each of them gets to its exchange before anybody
has asked for the end. -/
theorem returned_eq_nil_iff (hreach : Reaches Step initial p) :
    p.returned = [] ↔ Reaches (Restricted Step First) initial p := by
  constructor
  · intro hreturned
    induction hreach with
    | refl => exact .refl
    | tail _ hstep ih =>
      have hfirst := first_of_returned hstep hreturned
      exact (ih (returned_of_returned hstep hreturned)).tail ⟨hstep, hfirst⟩
  · intro hfirst
    have hnil : (initial : Process Thread).returned = [] := rfl
    exact hfirst.invariant hnil fun p q hp hstep =>
      (returned_of_first hstep.1 hstep.2).trans hp

/-- One thread ends the process, and nobody else is there. -/
theorem returned_eq_nil_iff_one : ∃ p : Process Unit, Reaches Step initial p ∧
    p.positions () = .joining true ∧ Reaches (Restricted Step First) initial p := by
  have hfatal : Step (initial : Process Unit) (initial.fatal () []) :=
    .fatal () [] ⟨rfl, rfl⟩ rfl
  have hexchange : Step (initial.fatal () []) ((initial.fatal () []).exchange () true) :=
    .exchange () true ⟨rfl, rfl⟩ rfl
  have hreach : Reaches Step initial ((initial.fatal () []).exchange () true) :=
    (Relation.ReflTransGen.single hfatal).tail hexchange
  exact ⟨_, hreach, rfl, (returned_eq_nil_iff hreach).mp rfl⟩

/-- The second of two threads is returned to while the first one waits for the background
thread. -/
theorem not_returned_eq_nil : ¬∀ (Thread : Type) [DecidableEq Thread] (p : Process Thread),
    Reaches Step initial p → p.returned = [] := by
  intro hnever
  let both : Process Bool := (initial.fatal true []).fatal false []
  have hfirst : Step (initial : Process Bool) (initial.fatal true []) :=
    .fatal true [] ⟨rfl, rfl⟩ rfl
  have hsecond : Step (initial.fatal true []) both := .fatal false [] ⟨rfl, rfl⟩ rfl
  have hwins : Step both (both.exchange true true) := .exchange true true ⟨rfl, rfl⟩ rfl
  have hloses : Step (both.exchange true true) ((both.exchange true true).exchange false true) :=
    .exchange false true ⟨rfl, rfl⟩ rfl
  have hreturned : ((both.exchange true true).exchange false true).returned = [false] := rfl
  have hreach := (((Relation.ReflTransGen.single hfirst).tail hsecond).tail hwins).tail hloses
  rw [hnever Bool _ hreach] at hreturned
  cases hreturned

end Process

end XubinhServer.LogCollector

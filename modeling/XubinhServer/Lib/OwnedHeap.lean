import Mathlib.Logic.Equiv.Basic
import Mathlib.Logic.Function.Basic

/-! A heap that is reached through owning pointers. A pointer is in a slot, and a slot outside its
lifetime has none. -/
namespace XubinhServer.OwnedHeap

inductive Fault
  | nullPointer
  | dangling
  | lifetime
deriving DecidableEq

/-- Addresses from `next` on have not been given out. -/
structure State (S α : Type) where
  heap : Nat → Option α
  next : Nat
  slots : S → Option (Option Nat)

namespace State

variable {S α : Type}

def initial : State S α := ⟨fun _ => none, 0, fun _ => none⟩

/-- The pointer in a slot, which may be null. -/
def pointer (s : State S α) (x : S) : Except Fault (Option Nat) :=
  match s.slots x with
  | none => throw .lifetime
  | some base => pure base

def deref (s : State S α) : Option Nat → Except Fault α
  | none => throw .nullPointer
  | some p =>
    match s.heap p with
    | none => throw .dangling
    | some a => pure a

/-- The address of the new cell is `s.next`. -/
def new (s : State S α) (a : α) : State S α :=
  { s with heap := Function.update s.heap s.next (some a), next := s.next + 1 }

/-- A write through a pointer to a cell that is there. -/
def store (s : State S α) (p : Nat) (a : α) : State S α :=
  { s with heap := Function.update s.heap p (some a) }

def forget (s : State S α) (p : Nat) : State S α :=
  { s with heap := Function.update s.heap p none }

/-- A null pointer may be deleted, and a cell once. -/
def delete (s : State S α) : Option Nat → Except Fault (State S α)
  | none => pure s
  | some p => do
    let _ ← s.deref (some p)
    pure (s.forget p)

variable [DecidableEq S]

def setSlot (s : State S α) (x : S) (slot : Option (Option Nat)) : State S α :=
  { s with slots := Function.update s.slots x slot }

end State

variable {S α : Type} {s s' : State S α} {c : S → Option (Option α)} {x y : S} {a : α} {p : Nat}
  {base : Option Nat} {slot : Option (Option Nat)}

/-- What the slots hold: nothing outside the lifetime, else an optional value. -/
def State.contents (s : State S α) (x : S) : Option (Option α) :=
  (s.slots x).map (fun base => base.bind s.heap)

/-- The slots hold `c`, each cell has one owner, and each pointer has a cell. -/
structure Owns (s : State S α) (c : S → Option (Option α)) : Prop where
  contents : ∀ x, s.contents x = c x
  fresh : ∀ p, s.next ≤ p → s.heap p = none
  live : ∀ x p, s.slots x = some (some p) → s.heap p ≠ none
  single : ∀ x y p, s.slots x = some (some p) → s.slots y = some (some p) → x = y
  noLeak : ∀ p, s.heap p ≠ none → ∃ x, s.slots x = some (some p)

theorem State.pointer_eq (hx : s.slots x = some base) : s.pointer x = .ok base := by
  rw [State.pointer, hx]
  rfl

theorem State.deref_eq (hp : s.heap p = some a) : s.deref (some p) = .ok a := by
  rw [State.deref, hp]
  rfl

theorem State.slots_setSlot_self [DecidableEq S] : (s.setSlot x slot).slots x = slot := by
  simp only [State.setSlot, Function.update_self]

theorem State.slots_setSlot_of_ne [DecidableEq S] (hyx : y ≠ x) :
    (s.setSlot x slot).slots y = s.slots y := by
  simp only [State.setSlot, Function.update_of_ne hyx]

theorem contents_eq_none_iff : s.contents x = none ↔ s.slots x = none := by
  rw [State.contents, Option.map_eq_none_iff]

/-- The contents follow from the pointer and what it points to. -/
theorem contents_congr (hslot : s'.slots x = s.slots x)
    (hheap : ∀ p, s.slots x = some (some p) → s'.heap p = s.heap p) :
    s'.contents x = s.contents x := by
  rw [State.contents, State.contents, hslot]
  cases hx : s.slots x with
  | none => rfl
  | some base =>
    cases base with
    | none => rfl
    | some p => simp [hheap p hx]

theorem owns_initial : Owns (State.initial : State S α) (fun _ => none) := by
  constructor
  · intro x
    rfl
  · intro p _
    rfl
  · intro x p hx
    exact absurd hx (by simp [State.initial])
  · intro x y p hx
    exact absurd hx (by simp [State.initial])
  · intro p hp
    exact absurd rfl hp

namespace Owns

/-- A slot in its lifetime has a pointer, and holds what it points to. -/
theorem slot_of_alive (h : Owns s c) (hx : c x ≠ none) :
    ∃ base, s.slots x = some base ∧ c x = some (base.bind s.heap) := by
  have hcell := h.contents x
  cases hslot : s.slots x with
  | none =>
    rw [contents_eq_none_iff.mpr hslot] at hcell
    exact absurd hcell.symm hx
  | some base =>
    rw [State.contents, hslot] at hcell
    exact ⟨base, rfl, hcell.symm⟩

theorem slot_of_empty (h : Owns s c) (hx : c x = some none) : s.slots x = some none := by
  obtain ⟨base, hslot, hcell⟩ := h.slot_of_alive (by rw [hx]; simp)
  rw [hx, Option.some_inj] at hcell
  cases base with
  | none => exact hslot
  | some p => exact absurd hcell.symm (h.live x p hslot)

theorem slot_of_full (h : Owns s c) (hx : c x = some (some a)) :
    ∃ p, s.slots x = some (some p) ∧ s.heap p = some a := by
  obtain ⟨base, hslot, hcell⟩ := h.slot_of_alive (by rw [hx]; simp)
  rw [hx, Option.some_inj] at hcell
  cases base with
  | none => exact absurd hcell (by simp)
  | some p => exact ⟨p, hslot, hcell.symm⟩

theorem not_owner (h : Owns s c) (hx : (c x).join = none) (p : Nat) :
    s.slots x ≠ some (some p) := by
  intro hslot
  rw [← h.contents x, State.contents, hslot] at hx
  exact h.live x p hslot hx

variable [DecidableEq S]

/-- One slot changes, and no cell that another slot owns. -/
theorem change (h : Owns s c) (hslots : ∀ y, y ≠ x → s'.slots y = s.slots y)
    (hheap : ∀ y p, y ≠ x → s.slots y = some (some p) → s'.heap p = s.heap p)
    (hfresh : ∀ p, s'.next ≤ p → s'.heap p = none)
    (hlive : ∀ p, s'.slots x = some (some p) → s'.heap p ≠ none)
    (hsingle : ∀ y p, y ≠ x → s'.slots x = some (some p) → s.slots y ≠ some (some p))
    (hleak : ∀ p, s'.heap p ≠ none →
      s'.slots x = some (some p) ∨ s.heap p ≠ none ∧ s.slots x ≠ some (some p)) :
    Owns s' (Function.update c x (s'.contents x)) := by
  constructor
  · intro y
    by_cases hyx : y = x
    · rw [hyx, Function.update_self]
    · rw [Function.update_of_ne hyx, ← h.contents y]
      exact contents_congr (hslots y hyx) (fun p hy => hheap y p hyx hy)
  · exact hfresh
  · intro y p hy
    by_cases hyx : y = x
    · subst hyx
      exact hlive p hy
    · rw [hslots y hyx] at hy
      rw [hheap y p hyx hy]
      exact h.live y p hy
  · intro y z p hy hz
    by_cases hyx : y = x
    · by_cases hzx : z = x
      · rw [hyx, hzx]
      · rw [hyx] at hy
        rw [hslots z hzx] at hz
        exact absurd hz (hsingle z p hzx hy)
    · rw [hslots y hyx] at hy
      by_cases hzx : z = x
      · rw [hzx] at hz
        exact absurd hy (hsingle y p hyx hz)
      · rw [hslots z hzx] at hz
        exact h.single y z p hy hz
  · intro p hp
    cases hleak p hp with
    | inl hx => exact ⟨x, hx⟩
    | inr hother =>
      obtain ⟨y, hy⟩ := h.noLeak p hother.1
      have hyx : y ≠ x := by
        intro heq
        exact hother.2 (heq ▸ hy)
      exact ⟨y, by rw [hslots y hyx, hy]⟩

/-- A slot that owns nothing gets a null pointer, or ends its lifetime. -/
theorem setSlot (h : Owns s c) (hx : (c x).join = none) (hslot : ∀ p, slot ≠ some (some p)) :
    Owns (s.setSlot x slot) (Function.update c x (slot.map (fun _ => none))) := by
  have hself : (s.setSlot x slot).slots x = slot := State.slots_setSlot_self
  have hcontents : (s.setSlot x slot).contents x = slot.map (fun _ => none) := by
    rw [State.contents, hself]
    cases slot with
    | none => rfl
    | some base =>
      cases base with
      | none => rfl
      | some p => exact absurd rfl (hslot p)
  rw [← hcontents]
  refine h.change (fun _ => State.slots_setSlot_of_ne) (fun _ _ _ _ => rfl) h.fresh ?_ ?_ ?_
  · intro p hp
    exact absurd (hself.symm.trans hp) (hslot p)
  · intro y p _ hp
    exact absurd (hself.symm.trans hp) (hslot p)
  · intro p hp
    exact Or.inr ⟨hp, h.not_owner hx p⟩

/-- A slot that owns nothing gets a new cell. -/
theorem new (h : Owns s c) (hx : (c x).join = none) (a : α) :
    Owns ((s.new a).setSlot x (some (some s.next))) (Function.update c x (some (some a))) := by
  have hself : ((s.new a).setSlot x (some (some s.next))).slots x = some (some s.next) :=
    State.slots_setSlot_self
  have hnew : ((s.new a).setSlot x (some (some s.next))).heap s.next = some a :=
    Function.update_self s.next _ s.heap
  have hold : ∀ p, p ≠ s.next →
      ((s.new a).setSlot x (some (some s.next))).heap p = s.heap p :=
    fun p hp => Function.update_of_ne hp _ s.heap
  have hunused : ∀ y p, s.slots y = some (some p) → p ≠ s.next := by
    intro y p hy hp
    exact h.live y p hy (h.fresh p (by omega))
  have hcontents : ((s.new a).setSlot x (some (some s.next))).contents x = some (some a) := by
    rw [State.contents, hself, Option.map_some, Option.bind_some, hnew]
  rw [← hcontents]
  refine h.change (fun _ => State.slots_setSlot_of_ne) (fun y p _ hy => hold p (hunused y p hy))
    ?_ ?_ ?_ ?_
  · intro p hp
    have hlt : s.next + 1 ≤ p := hp
    rw [hold p (by omega)]
    exact h.fresh p (by omega)
  · intro p hp
    rw [hself, Option.some_inj, Option.some_inj] at hp
    rw [← hp, hnew]
    exact Option.some_ne_none a
  · intro y p _ hp hy
    rw [hself, Option.some_inj, Option.some_inj] at hp
    exact hunused y p hy hp.symm
  · intro p hp
    by_cases hpn : p = s.next
    · rw [hpn]
      exact Or.inl hself
    · rw [hold p hpn] at hp
      exact Or.inr ⟨hp, h.not_owner hx p⟩

/-- What is written through an owner is seen in its slot only. -/
theorem store (h : Owns s c) (hx : s.slots x = some (some p)) (a : α) :
    Owns (s.store p a) (Function.update c x (some (some a))) := by
  have hself : (s.store p a).heap p = some a := Function.update_self p _ s.heap
  have hold : ∀ q, q ≠ p → (s.store p a).heap q = s.heap q :=
    fun q hq => Function.update_of_ne hq _ s.heap
  have hslot : (s.store p a).slots x = some (some p) := hx
  have hcontents : (s.store p a).contents x = some (some a) := by
    rw [State.contents, hslot, Option.map_some, Option.bind_some, hself]
  have hother : ∀ y q, y ≠ x → s.slots y = some (some q) → q ≠ p := by
    intro y q hyx hy hq
    exact hyx (h.single y x p (hq ▸ hy) hx)
  rw [← hcontents]
  refine h.change (fun _ _ => rfl) (fun y q hyx hy => hold q (hother y q hyx hy)) ?_ ?_ ?_ ?_
  · intro q hq
    have hqp : q ≠ p := by
      intro heq
      exact h.live x p hx (h.fresh p (heq ▸ hq))
    rw [hold q hqp]
    exact h.fresh q hq
  · intro q hq
    rw [hslot, Option.some_inj, Option.some_inj] at hq
    rw [← hq, hself]
    exact Option.some_ne_none a
  · intro y q hyx hq hy
    rw [hslot, Option.some_inj, Option.some_inj] at hq
    exact hother y q hyx hy hq.symm
  · intro q hq
    by_cases hqp : q = p
    · rw [hqp]
      exact Or.inl hslot
    · rw [hold q hqp] at hq
      refine Or.inr ⟨hq, ?_⟩
      rw [hx, ne_eq, Option.some_inj, Option.some_inj]
      exact fun heq => hqp heq.symm

/-- An owner deletes its cell and ends its lifetime. -/
theorem delete (h : Owns s c) (hx : s.slots x = some base) :
    ∃ s', s.delete base = .ok s' ∧ Owns (s'.setSlot x none) (Function.update c x none) := by
  cases base with
  | none =>
    have hcell : (c x).join = none := by
      rw [← h.contents x, State.contents, hx]
      rfl
    exact ⟨s, rfl, h.setSlot hcell (by simp)⟩
  | some p =>
    obtain ⟨a, ha⟩ := Option.ne_none_iff_exists'.mp (h.live x p hx)
    have hdelete : s.delete (some p) = .ok (s.forget p) := by
      rw [State.delete, State.deref_eq ha]
      rfl
    refine ⟨s.forget p, hdelete, ?_⟩
    have hself : ((s.forget p).setSlot x none).slots x = none := State.slots_setSlot_self
    have hforget : ((s.forget p).setSlot x none).heap p = none := Function.update_self p _ s.heap
    have hold : ∀ q, q ≠ p → ((s.forget p).setSlot x none).heap q = s.heap q :=
      fun q hq => Function.update_of_ne hq _ s.heap
    have hcontents : ((s.forget p).setSlot x none).contents x = none :=
      contents_eq_none_iff.mpr hself
    rw [← hcontents]
    refine h.change (fun _ => State.slots_setSlot_of_ne) ?_ ?_ ?_ ?_ ?_
    · intro y q hyx hy
      refine hold q ?_
      intro hq
      exact hyx (h.single y x p (hq ▸ hy) hx)
    · intro q hq
      by_cases hqp : q = p
      · rw [hqp, hforget]
      · rw [hold q hqp]
        exact h.fresh q hq
    · intro q hq
      exact absurd (hself.symm.trans hq) (by simp)
    · intro y q _ hq
      exact absurd (hself.symm.trans hq) (by simp)
    · intro q hq
      by_cases hqp : q = p
      · rw [hqp] at hq
        exact absurd hforget hq
      · rw [hold q hqp] at hq
        refine Or.inr ⟨hq, ?_⟩
        rw [hx, ne_eq, Option.some_inj, Option.some_inj]
        exact fun heq => hqp heq.symm

/-- Two slots exchange their pointers. -/
theorem exchange (h : Owns s c) (x y : S) :
    Owns ((s.setSlot x (s.slots y)).setSlot y (s.slots x))
      (Function.update (Function.update c x (c y)) y (c x)) := by
  have hcomp : ∀ z, ((s.setSlot x (s.slots y)).setSlot y (s.slots x)).slots z
      = s.slots (Equiv.swap y x z) :=
    congrFun (Equiv.comp_swap_eq_update y x s.slots).symm
  rw [← Equiv.comp_swap_eq_update]
  constructor
  · intro z
    rw [State.contents, hcomp]
    exact h.contents (Equiv.swap y x z)
  · exact h.fresh
  · intro z p hz
    exact h.live _ p ((hcomp z).symm.trans hz)
  · intro z w p hz hw
    have hzw := h.single _ _ p ((hcomp z).symm.trans hz) ((hcomp w).symm.trans hw)
    exact (Equiv.swap y x).injective hzw
  · intro p hp
    obtain ⟨z, hz⟩ := h.noLeak p hp
    refine ⟨Equiv.swap y x z, ?_⟩
    rw [hcomp, Equiv.swap_apply_self]
    exact hz

end Owns

/-- A computation that comes to its end, with `c` in the slots. -/
def Yields (r : Except Fault (State S α)) (c : S → Option (Option α)) : Prop :=
  ∃ s, r = .ok s ∧ Owns s c

theorem Yields.bind {r : Except Fault (State S α)} {f : State S α → Except Fault (State S α)}
    {c' : S → Option (Option α)} (h : Yields r c) (hf : ∀ s, Owns s c → Yields (f s) c') :
    Yields (r >>= f) c' := by
  obtain ⟨s, hr, hs⟩ := h
  subst hr
  exact hf s hs

end XubinhServer.OwnedHeap

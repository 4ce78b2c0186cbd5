import XubinhServer.Any

/-! What the variables are for: each is a cell of its own, which is empty or has one value. The
members do to the slots what they are to do to the cells. -/
namespace XubinhServer.Any

open OwnedHeap

/-- Nothing outside the lifetime of the variable, else an optional value. -/
abbrev Cells (Name : Type) {Tag : Type} (Value : Tag → Type) := Name → Option (Option (Sigma Value))

variable {Name Tag : Type} {Value : Tag → Type}

namespace Cells

def initial : Cells Name Value := fun _ => none

/-- The value in a cell, where there is one. -/
def held (cells : Cells Name Value) (x : Name) : Option (Sigma Value) := (cells x).join

variable [DecidableEq Name]

def put (cells : Cells Name Value) (x : Name) (v : Option (Sigma Value)) : Cells Name Value :=
  Function.update cells x (some v)

/-- A value goes from one cell to another, and leaves an empty one. -/
def transfer (cells : Cells Name Value) (x other : Name) : Cells Name Value :=
  Function.update (Function.update cells x (cells other)) other (some none)

def exec [DecidableEq Tag] (cells : Cells Name Value) :
    Op Name Value → Cells Name Value × Result Value
  | .default x => (cells.put x none, .done)
  | .value x held => (cells.put x (some held), .done)
  | .copy x other => (Function.update cells x (cells other), .done)
  | .move x other => (cells.transfer x other, .done)
  | .destroy x => (Function.update cells x none, .done)
  | .copyAssign x other => (Function.update cells x (cells other), .done)
  | .moveAssign x other => (if x = other then cells else cells.transfer x other, .done)
  | .valueAssign x held => (cells.put x (some held), .done)
  | .swap x other =>
    (Function.update (Function.update cells x (cells other)) other (cells x), .done)
  | .clear x => (cells.put x none, .done)
  | .empty x => (cells, .empty (cells.held x).isNone)
  | .type x => (cells, .type ((cells.held x).map Sigma.fst))
  | .anyCast x t =>
    match cells.held x with
    | none => (cells, .badAnyCast)
    | some held => (cells, if held.1 = t then .value held else .badAnyCast)
  | .assignThrough x t newValue =>
    if (cells.held x).map Sigma.fst = some t then (cells.put x (some ⟨t, newValue⟩), .done)
    else (cells, .badAnyCast)

/-- What scopes make sure of: a variable is constructed once, and used in its lifetime. -/
def Scoped (cells : Cells Name Value) : Op Name Value → Prop
  | .default x => cells x = none
  | .value x _ => cells x = none
  | .copy x other => cells x = none ∧ cells other ≠ none
  | .move x other => cells x = none ∧ cells other ≠ none
  | .destroy x => cells x ≠ none
  | .copyAssign x other => cells x ≠ none ∧ cells other ≠ none
  | .moveAssign x other => cells x ≠ none ∧ cells other ≠ none
  | .valueAssign x _ => cells x ≠ none
  | .swap x other => cells x ≠ none ∧ cells other ≠ none
  | .clear x => cells x ≠ none
  | .empty x => cells x ≠ none
  | .type x => cells x ≠ none
  | .anyCast x _ => cells x ≠ none
  | .assignThrough x _ _ => cells x ≠ none

/-- The source of a copy is not empty, and a variable that is moved to itself is. -/
def Meets (cells : Cells Name Value) : Op Name Value → Prop
  | .copy _ other => cells.held other ≠ none
  | .copyAssign _ other => cells.held other ≠ none
  | .moveAssign x other => x = other → cells.held x = none
  | _ => True

variable [DecidableEq Tag]

def ScopedAll (cells : Cells Name Value) : List (Op Name Value) → Prop
  | [] => True
  | op :: ops => cells.Scoped op ∧ ScopedAll (cells.exec op).1 ops

def MeetsAll (cells : Cells Name Value) : List (Op Name Value) → Prop
  | [] => True
  | op :: ops => cells.Meets op ∧ MeetsAll (cells.exec op).1 ops

end Cells

section Reads

variable {s : State Name Value} {cells : Cells Name Value} {x : Name} {held : Sigma Value}

/-- The cells of the variables. There is no temporary between two statements. -/
def Cells.slots (cells : Cells Name Value) (x : Option Name) : Option (Option (Sigma Value)) :=
  x.bind cells

theorem alive_of_held (hheld : cells.held x = some held) : cells x ≠ none := by
  intro hnone
  rw [Cells.held, hnone] at hheld
  exact absurd hheld (by simp)

theorem slot_of_held (h : Owns s cells.slots) (hx : cells.held x = some held) :
    ∃ p, s.slots (some x) = some (some p) ∧ s.heap p = some held :=
  h.slot_of_full (x := some x) (Option.join_eq_some_iff.mp hx)

theorem cell_of_not_held (hx : cells x ≠ none) (hnone : cells.held x = none) :
    cells x = some none := by
  obtain ⟨v, hv⟩ := Option.ne_none_iff_exists'.mp hx
  rw [Cells.held, hv, Option.join_some] at hnone
  rw [hv, hnone]

theorem slot_of_not_held (h : Owns s cells.slots) (hx : cells x ≠ none)
    (hnone : cells.held x = none) : s.slots (some x) = some none :=
  h.slot_of_empty (x := some x) (cell_of_not_held hx hnone)

theorem empty_eq (h : Owns s cells.slots) (hx : cells x ≠ none) :
    empty s x = .ok (cells.held x).isNone := by
  cases hheld : cells.held x with
  | none =>
    rw [empty, State.pointer_eq (slot_of_not_held h hx hheld)]
    rfl
  | some held =>
    obtain ⟨p, hslot, _⟩ := slot_of_held h hheld
    rw [empty, State.pointer_eq hslot]
    rfl

theorem type_eq (h : Owns s cells.slots) (hx : cells x ≠ none) :
    type s x = .ok ((cells.held x).map Sigma.fst) := by
  cases hheld : cells.held x with
  | none =>
    rw [type, State.pointer_eq (slot_of_not_held h hx hheld)]
    rfl
  | some held =>
    obtain ⟨p, hslot, hheap⟩ := slot_of_held h hheld
    rw [type, State.pointer_eq hslot]
    change (if some p = none then pure none
      else s.deref (some p) >>= fun held => pure (some held.1)) = _
    rw [if_neg (by simp), State.deref_eq hheap]
    rfl

variable [DecidableEq Tag] {t : Tag}

/-- The cast to the type of the value finds the holder. -/
theorem anyCastPointer_eq (h : Owns s cells.slots) (hheld : cells.held x = some held) :
    ∃ p, anyCastPointer s x held.1 = .ok (some p) ∧ s.slots (some x) = some (some p)
      ∧ s.heap p = some held := by
  obtain ⟨p, hslot, hheap⟩ := slot_of_held h hheld
  refine ⟨p, ?_, hslot, hheap⟩
  rw [anyCastPointer, type_eq h (alive_of_held hheld), hheld]
  change (if some held.1 = some held.1 then s.pointer (some x) else pure none) = _
  rw [if_pos rfl, State.pointer_eq hslot]

theorem anyCastPointer_of_ne (h : Owns s cells.slots) (hx : cells x ≠ none)
    (ht : (cells.held x).map Sigma.fst ≠ some t) : anyCastPointer s x t = .ok none := by
  rw [anyCastPointer, type_eq h hx]
  exact if_neg ht

theorem anyCast_eq (h : Owns s cells.slots) (hheld : cells.held x = some held) :
    anyCast s x held.1 = .ok (some held.2) := by
  obtain ⟨p, hcast, _, hheap⟩ := anyCastPointer_eq h hheld
  rw [anyCast, hcast]
  change (if some p = none then pure none
    else s.deref (some p) >>= fun found => pure (valueAs held.1 found)) = _
  rw [if_neg (by simp), State.deref_eq hheap]
  change Except.ok (valueAs held.1 held) = _
  rw [valueAs, dif_pos rfl]

theorem anyCast_of_ne (h : Owns s cells.slots) (hx : cells x ≠ none)
    (ht : (cells.held x).map Sigma.fst ≠ some t) : anyCast s x t = .ok none := by
  rw [anyCast, anyCastPointer_of_ne h hx ht]
  rfl

theorem assignThrough_of_ne (h : Owns s cells.slots) (hx : cells x ≠ none)
    (ht : (cells.held x).map Sigma.fst ≠ some t) (newValue : Value t) :
    assignThrough s x t newValue = .ok none := by
  rw [assignThrough, anyCastPointer_of_ne h hx ht]
  rfl

end Reads

section Slots

variable {s : State Name Value} {c : Option Name → Option (Option (Sigma Value))}
  {x y : Option Name} {held : Sigma Value} [DecidableEq Name]

theorem yields_destroy (h : Owns s c) (hx : c x ≠ none) :
    Yields (destroy s x) (Function.update c x none) := by
  obtain ⟨base, hslot, _⟩ := h.slot_of_alive hx
  obtain ⟨s', hs', howns⟩ := h.delete hslot
  refine ⟨s'.setSlot x none, ?_, howns⟩
  rw [destroy, State.pointer_eq hslot]
  change (s.delete base >>= fun s => pure (s.setSlot x none)) = _
  rw [hs']
  rfl

theorem yields_swap (h : Owns s c) (hx : c x ≠ none) (hy : c y ≠ none) :
    Yields (swap s x y) (Function.update (Function.update c x (c y)) y (c x)) := by
  obtain ⟨temp, hslotx, _⟩ := h.slot_of_alive hx
  obtain ⟨base, hsloty, _⟩ := h.slot_of_alive hy
  have hexchange := h.exchange x y
  rw [hslotx, hsloty] at hexchange
  refine ⟨_, ?_, hexchange⟩
  rw [swap, State.pointer_eq hslotx, State.pointer_eq hsloty]
  rfl

theorem owns_default (h : Owns s c) (hx : c x = none) :
    Owns (default s x) (Function.update c x (some none)) :=
  h.setSlot (by rw [hx]; rfl) (by simp)

theorem owns_value (h : Owns s c) (hx : c x = none) (held : Sigma Value) :
    Owns (value s x held) (Function.update c x (some (some held))) :=
  h.new (by rw [hx]; rfl) held

theorem yields_copy (h : Owns s c) (hx : c x = none) (hy : c y = some (some held)) :
    Yields (copy s x y) (Function.update c x (some (some held))) := by
  obtain ⟨p, hslot, hheap⟩ := h.slot_of_full hy
  refine ⟨value s x held, ?_, owns_value h hx held⟩
  rw [copy, State.pointer_eq hslot]
  change (clone s (some p) >>= _) = _
  rw [clone, State.deref_eq hheap]
  rfl

/-- The holder of an empty variable is asked for a copy all the same. -/
theorem copy_of_empty (h : Owns s c) (hy : c y = some none) :
    copy s x y = .error .nullPointer := by
  rw [copy, State.pointer_eq (h.slot_of_empty hy)]
  rfl

theorem yields_move (h : Owns s c) (hx : c x = none) (hy : c y ≠ none) :
    Yields (move s x y) (Function.update (Function.update c x (c y)) y (some none)) := by
  have hxy : x ≠ y := by
    intro heq
    exact hy (heq ▸ hx)
  obtain ⟨base, hslot, _⟩ := h.slot_of_alive hy
  have hexchange := (owns_default h hx).exchange x y
  rw [default, State.slots_setSlot_self, State.slots_setSlot_of_ne hxy.symm, hslot,
    Function.update_self, Function.update_of_ne hxy.symm] at hexchange
  refine ⟨(s.setSlot x (some base)).setSlot y (some none), ?_, ?_⟩
  · rw [move, State.pointer_eq hslot]
    rfl
  · simpa only [State.setSlot, Function.update_idem] using hexchange

end Slots

section Writes

variable {s : State Name Value} {cells : Cells Name Value} {x y : Name} {v : Option (Sigma Value)}
  {held : Sigma Value} [DecidableEq Name]

theorem update_slots (v : Option (Option (Sigma Value))) :
    Function.update cells.slots (some x) v = Cells.slots (Function.update cells x v) := by
  funext z
  cases z with
  | none => rfl
  | some z =>
    by_cases hzx : z = x
    · rw [hzx, Function.update_self, Cells.slots, Option.bind_some, Function.update_self]
    · rw [Function.update_of_ne (by simpa using hzx), Cells.slots, Cells.slots, Option.bind_some,
        Option.bind_some, Function.update_of_ne hzx]

theorem update_none : Function.update cells.slots none none = cells.slots :=
  Function.update_eq_self none cells.slots

/-- The temporary has what a variable is to hold. They change places, and it is destroyed with
what the variable had. -/
theorem yields_replace (h : Owns s (Function.update cells.slots none (some v)))
    (hx : cells x ≠ none) :
    Yields (do let s ← swap s none (some x); destroy s none) (cells.put x v).slots := by
  have hxs : Function.update cells.slots none (some v) (some x) = cells x := by
    rw [Function.update_of_ne (by simp)]
    rfl
  have hswap := yields_swap h (x := none) (y := some x) (by simp) (by rw [hxs]; exact hx)
  refine hswap.bind (fun s hs => ?_)
  have hdestroy := yields_destroy hs (x := none) (by
    rw [hxs, Function.update_of_ne (by simp), Function.update_self]
    exact hx)
  rw [Function.update_self, Function.update_idem, Function.update_comm (by simp),
    Function.update_idem, update_none, update_slots] at hdestroy
  exact hdestroy

theorem yields_clear (h : Owns s cells.slots) (hx : cells x ≠ none) :
    Yields (clear s x) (cells.put x none).slots :=
  yields_replace (owns_default h rfl) hx

theorem yields_valueAssign (h : Owns s cells.slots) (hx : cells x ≠ none) (held : Sigma Value) :
    Yields (valueAssign s x held) (cells.put x (some held)).slots :=
  yields_replace (owns_value h rfl held) hx

theorem yields_copyAssign (h : Owns s cells.slots) (hx : cells x ≠ none)
    (hy : cells y = some (some held)) :
    Yields (copyAssign s x y) (cells.put x (some held)).slots :=
  (yields_copy (x := none) (y := some y) h rfl hy).bind (fun _ hs => yields_replace hs hx)

/-- The variables change places, and what `x` had goes with the temporary. -/
theorem yields_moveAssign (h : Owns s cells.slots) (hx : cells x ≠ none) (hy : cells y ≠ none) :
    Yields (moveAssign s x y) (Cells.put (Function.update (Function.update cells y (cells x)) x
      (cells y)) y none).slots := by
  have hswap := yields_swap h (x := some y) (y := some x) hy hx
  rw [update_slots, update_slots] at hswap
  refine hswap.bind (fun s hs => yields_clear hs ?_)
  by_cases hyx : y = x
  · subst hyx
    rw [Function.update_self]
    exact hy
  · rw [Function.update_of_ne hyx, Function.update_self]
    exact hx

theorem yields_moveAssign_of_ne (h : Owns s cells.slots) (hx : cells x ≠ none)
    (hy : cells y ≠ none) (hxy : x ≠ y) :
    Yields (moveAssign s x y) (cells.transfer x y).slots := by
  have hyields := yields_moveAssign h hx hy
  rw [Cells.put, Function.update_comm hxy.symm, Function.update_idem] at hyields
  exact hyields

/-- A variable that is moved to itself is empty after that. -/
theorem yields_moveAssign_self (h : Owns s cells.slots) (hx : cells x ≠ none) :
    Yields (moveAssign s x x) (cells.put x none).slots := by
  have hyields := yields_moveAssign h hx hx
  rw [Function.update_eq_self, Function.update_eq_self] at hyields
  exact hyields

theorem assignThrough_eq [DecidableEq Tag] (h : Owns s cells.slots)
    (hheld : cells.held x = some held) (newValue : Value held.1) :
    ∃ s', assignThrough s x held.1 newValue = .ok (some s')
      ∧ Owns s' (cells.put x (some ⟨held.1, newValue⟩)).slots := by
  obtain ⟨p, hcast, hslot, _⟩ := anyCastPointer_eq h hheld
  have howns := h.store hslot ⟨held.1, newValue⟩
  rw [update_slots] at howns
  refine ⟨s.store p ⟨held.1, newValue⟩, ?_, howns⟩
  rw [assignThrough, hcast]
  rfl

end Writes

end XubinhServer.Any

import XubinhServer.Any.Cells

/-! A program sees the cells in its variables, as long as it copies no empty one and moves none
with a value to itself. -/
namespace XubinhServer.Any

open OwnedHeap

variable {Name Tag : Type} {Value : Tag → Type} [DecidableEq Name] [DecidableEq Tag]
  {s s' : State Name Value} {cells : Cells Name Value} {op : Op Name Value} {x y : Name} {t : Tag}
  {ops : List (Op Name Value)}

/-- One step of the program, with the result and the cells that it is to have. -/
def Follows (s : State Name Value) (cells : Cells Name Value) (op : Op Name Value) : Prop :=
  ∃ s', exec s op = .ok (s', (cells.exec op).2) ∧ Owns s' (cells.exec op).1.slots

theorem follows_of_yields {r : Except Fault (State Name Value)}
    (hr : exec s op = (do return (← r, .done))) (hdone : (cells.exec op).2 = .done)
    (h : Yields r (cells.exec op).1.slots) : Follows s cells op := by
  obtain ⟨s', hs', howns⟩ := h
  refine ⟨s', ?_, howns⟩
  rw [hr, hs', hdone]
  rfl

theorem follows_anyCast (h : Owns s cells.slots) (hx : cells x ≠ none) :
    Follows s cells (.anyCast x t) := by
  by_cases ht : (cells.held x).map Sigma.fst = some t
  · obtain ⟨held, hheld, htag⟩ := Option.map_eq_some_iff.mp ht
    subst htag
    have hcells : cells.exec (.anyCast x held.1) = (cells, .value held) := by
      simp only [Cells.exec, hheld, if_true]
    refine ⟨s, ?_, ?_⟩
    · rw [exec, anyCast_eq h hheld, hcells]
      rfl
    · rw [hcells]
      exact h
  · have hcells : cells.exec (.anyCast x t) = (cells, .badAnyCast) := by
      cases hheld : cells.held x with
      | none => simp only [Cells.exec, hheld]
      | some held =>
        have htag : held.1 ≠ t := by
          intro heq
          exact ht (by rw [hheld, Option.map_some, heq])
        simp only [Cells.exec, hheld, if_neg htag]
    refine ⟨s, ?_, ?_⟩
    · rw [exec, anyCast_of_ne h hx ht, hcells]
      rfl
    · rw [hcells]
      exact h

theorem follows_assignThrough (h : Owns s cells.slots) (hx : cells x ≠ none)
    (newValue : Value t) : Follows s cells (.assignThrough x t newValue) := by
  by_cases ht : (cells.held x).map Sigma.fst = some t
  · have hcells : cells.exec (.assignThrough x t newValue)
        = (cells.put x (some ⟨t, newValue⟩), .done) := if_pos ht
    obtain ⟨held, hheld, htag⟩ := Option.map_eq_some_iff.mp ht
    subst htag
    obtain ⟨s', hs', howns⟩ := assignThrough_eq h hheld newValue
    refine ⟨s', ?_, ?_⟩
    · rw [exec, hs', hcells]
      rfl
    · rw [hcells]
      exact howns
  · have hcells : cells.exec (.assignThrough x t newValue) = (cells, .badAnyCast) := if_neg ht
    refine ⟨s, ?_, ?_⟩
    · rw [exec, assignThrough_of_ne h hx ht, hcells]
      rfl
    · rw [hcells]
      exact h

theorem follows_copy (h : Owns s cells.slots) (hx : cells x = none) (hy : cells.held y ≠ none) :
    Follows s cells (.copy x y) := by
  obtain ⟨held, hheld⟩ := Option.ne_none_iff_exists'.mp hy
  have hcell : cells y = some (some held) := Option.join_eq_some_iff.mp hheld
  have hyields := yields_copy (x := some x) (y := some y) h hx hcell
  rw [update_slots, ← hcell] at hyields
  exact follows_of_yields rfl rfl hyields

theorem follows_copyAssign (h : Owns s cells.slots) (hx : cells x ≠ none)
    (hy : cells.held y ≠ none) : Follows s cells (.copyAssign x y) := by
  obtain ⟨held, hheld⟩ := Option.ne_none_iff_exists'.mp hy
  have hcell : cells y = some (some held) := Option.join_eq_some_iff.mp hheld
  have hyields := yields_copyAssign h hx hcell
  rw [Cells.put, ← hcell] at hyields
  exact follows_of_yields rfl rfl hyields

/-- An empty variable may be moved to itself, since it is empty after that. -/
theorem follows_moveAssign (h : Owns s cells.slots) (hx : cells x ≠ none) (hy : cells y ≠ none)
    (hself : x = y → cells.held x = none) : Follows s cells (.moveAssign x y) := by
  refine follows_of_yields rfl rfl ?_
  by_cases hxy : x = y
  · have hcell := cell_of_not_held hx (hself hxy)
    have hsame : cells.put x none = cells := by
      rw [Cells.put, ← hcell, Function.update_eq_self]
    have hyields := yields_moveAssign_self h hx
    subst hxy
    rw [hsame] at hyields
    rw [Cells.exec, if_pos rfl]
    exact hyields
  · rw [Cells.exec, if_neg hxy]
    exact yields_moveAssign_of_ne h hx hy hxy

theorem follows_of_meets (h : Owns s cells.slots) (hscope : cells.Scoped op)
    (hmeets : cells.Meets op) : Follows s cells op := by
  cases op with
  | default x =>
    have howns := owns_default (x := some x) h hscope
    rw [update_slots] at howns
    exact ⟨_, rfl, howns⟩
  | value x held =>
    have howns := owns_value (x := some x) h hscope held
    rw [update_slots] at howns
    exact ⟨_, rfl, howns⟩
  | copy x other => exact follows_copy h hscope.1 hmeets
  | move x other =>
    have hyields := yields_move (x := some x) (y := some other) h hscope.1 hscope.2
    rw [update_slots, update_slots] at hyields
    exact follows_of_yields rfl rfl hyields
  | destroy x =>
    have hyields := yields_destroy (x := some x) h hscope
    rw [update_slots] at hyields
    exact follows_of_yields rfl rfl hyields
  | copyAssign x other => exact follows_copyAssign h hscope.1 hmeets
  | moveAssign x other => exact follows_moveAssign h hscope.1 hscope.2 hmeets
  | valueAssign x held => exact follows_of_yields rfl rfl (yields_valueAssign h hscope held)
  | swap x other =>
    have hyields := yields_swap (x := some x) (y := some other) h hscope.1 hscope.2
    rw [update_slots, update_slots] at hyields
    exact follows_of_yields rfl rfl hyields
  | clear x => exact follows_of_yields rfl rfl (yields_clear h hscope)
  | empty x =>
    refine ⟨s, ?_, h⟩
    rw [exec, empty_eq h hscope]
    rfl
  | type x =>
    refine ⟨s, ?_, h⟩
    rw [exec, type_eq h hscope]
    rfl
  | anyCast x t => exact follows_anyCast h hscope
  | assignThrough x t newValue => exact follows_assignThrough h hscope newValue

/-- The variables are seen to have what is in the cells. -/
def Shows (s : State Name Value) (cells : Cells Name Value) : Prop :=
  ∀ x, s.contents (some x) = cells x

omit [DecidableEq Name] [DecidableEq Tag] in
theorem shows_of_owns (h : Owns s cells.slots) : Shows s cells := fun x => h.contents (some x)

theorem not_shows_of_not_meets (h : Owns s cells.slots) (hscope : cells.Scoped op)
    (hmeets : ¬ cells.Meets op) {r : Result Value} (hexec : exec s op = .ok (s', r)) :
    ¬ Shows s' (cells.exec op).1 := by
  cases op with
  | copy x other =>
    have hcell := cell_of_not_held hscope.2 (not_not.mp hmeets)
    rw [exec, copy_of_empty (y := some other) h hcell] at hexec
    exact absurd hexec (by simp [Bind.bind, Except.bind])
  | copyAssign x other =>
    have hcell := cell_of_not_held hscope.2 (not_not.mp hmeets)
    rw [exec, copyAssign, copy_of_empty (y := some other) h hcell] at hexec
    exact absurd hexec (by simp [Bind.bind, Except.bind])
  | moveAssign x other =>
    obtain ⟨heq, hheld⟩ := Classical.not_imp.mp hmeets
    subst heq
    obtain ⟨s₁, hs₁, howns⟩ := yields_moveAssign_self h hscope.1
    rw [exec, hs₁] at hexec
    obtain ⟨hs', _⟩ := Prod.mk.inj (Except.ok.inj hexec)
    subst hs'
    intro hshows
    have hempty : s₁.contents (some x) = some none := by
      rw [howns.contents (some x)]
      exact Function.update_self x (some none) cells
    have hsame : s₁.contents (some x) = cells x := by
      rw [hshows x, Cells.exec, if_pos rfl]
    refine hheld ?_
    rw [Cells.held, ← hsame, hempty, Option.join_some]
  | _ => exact absurd trivial hmeets

/-- Step by step, the results are those of the cells, and so is what the variables have. -/
def Refines (s : State Name Value) (cells : Cells Name Value) : List (Op Name Value) → Prop
  | [] => Shows s cells
  | op :: ops => Shows s cells ∧
    ∃ s', exec s op = .ok (s', (cells.exec op).2) ∧ Refines s' (cells.exec op).1 ops

theorem shows_of_refines (h : Refines s cells ops) : Shows s cells := by
  cases ops with
  | nil => exact h
  | cons op ops => exact h.1

theorem refines_iff_of_owns (h : Owns s cells.slots) (hscope : cells.ScopedAll ops) :
    Refines s cells ops ↔ cells.MeetsAll ops := by
  induction ops generalizing s cells with
  | nil => exact ⟨fun _ => trivial, fun _ => shows_of_owns h⟩
  | cons op ops ih =>
    constructor
    · intro hrefines
      obtain ⟨_, s', hexec, hrest⟩ := hrefines
      by_cases hmeets : cells.Meets op
      · obtain ⟨s₁, hs₁, howns⟩ := follows_of_meets h hscope.1 hmeets
        rw [hs₁] at hexec
        obtain ⟨rfl, _⟩ := Prod.mk.inj (Except.ok.inj hexec)
        exact ⟨hmeets, (ih howns hscope.2).mp hrest⟩
      · exact absurd (shows_of_refines hrest) (not_shows_of_not_meets h hscope.1 hmeets hexec)
    · intro hmeets
      obtain ⟨s', hs', howns⟩ := follows_of_meets h hscope.1 hmeets.1
      exact ⟨shows_of_owns h, s', hs', (ih howns hscope.2).mpr hmeets.2⟩

omit [DecidableEq Name] [DecidableEq Tag] in
theorem owns_initial_slots :
    Owns (State.initial : State Name Value) (Cells.slots Cells.initial) := by
  have hslots : Cells.slots (Cells.initial : Cells Name Value) = fun _ => none := by
    funext x
    cases x with
    | none => rfl
    | some x => rfl
  rw [hslots]
  exact owns_initial

/-- Any program, with any number of variables. -/
theorem refines_iff_meetsAll (hscope : Cells.initial.ScopedAll ops) :
    Refines State.initial Cells.initial ops ↔ Cells.initial.MeetsAll ops :=
  refines_iff_of_owns owns_initial_slots hscope

theorem refines_iff_meetsAll_copy_move_cast :
    Refines State.initial Cells.initial
      ([.value 0 ⟨true, 7⟩, .copy 1 0, .assignThrough 1 true 8, .moveAssign 0 1, .anyCast 0 true,
        .anyCast 0 false, .moveAssign 1 1] : List (Op Nat (fun _ : Bool => Int))) := by
  refine (refines_iff_meetsAll ?_).mpr ?_
  · simp [Cells.ScopedAll, Cells.Scoped, Cells.exec, Cells.put, Cells.transfer, Cells.held,
      Cells.initial]
  · simp [Cells.MeetsAll, Cells.Meets, Cells.exec, Cells.put, Cells.transfer, Cells.held]

theorem not_refines_of_empty_copy :
    ¬ ∀ ops : List (Op Nat (fun _ : Unit => Int)), Cells.initial.ScopedAll ops →
      Refines State.initial Cells.initial ops := by
  intro h
  have hscope : Cells.initial.ScopedAll
      ([.default 0, .copy 1 0] : List (Op Nat (fun _ : Unit => Int))) :=
    ⟨rfl, ⟨rfl, by decide⟩, trivial⟩
  have hmeets := (refines_iff_of_owns owns_initial_slots hscope).mp (h _ hscope)
  exact hmeets.2.1 rfl

def run (s : State Name Value) : List (Op Name Value) → Except Fault (State Name Value)
  | [] => pure s
  | op :: ops => do
    let (s, _) ← exec s op
    run s ops

def Cells.run (cells : Cells Name Value) : List (Op Name Value) → Cells Name Value
  | [] => cells
  | op :: ops => Cells.run (cells.exec op).1 ops

theorem yields_run (h : Owns s cells.slots) (hscope : cells.ScopedAll ops)
    (hmeets : cells.MeetsAll ops) : Yields (run s ops) (cells.run ops).slots := by
  induction ops generalizing s cells with
  | nil => exact ⟨s, rfl, h⟩
  | cons op ops ih =>
    obtain ⟨s', hs', howns⟩ := follows_of_meets h hscope.1 hmeets.1
    rw [run, hs']
    exact ih howns hscope.2 hmeets.2

/-- No holder is left when every variable has come to its end. -/
theorem heap_eq_none_of_ended (hscope : Cells.initial.ScopedAll ops)
    (hmeets : Cells.initial.MeetsAll ops) (hended : ∀ x, Cells.initial.run ops x = none) :
    ∃ s, run State.initial ops = .ok s ∧ ∀ p, s.heap p = none := by
  obtain ⟨s, hs, howns⟩ := yields_run owns_initial_slots hscope hmeets
  refine ⟨s, hs, ?_⟩
  intro p
  by_contra hp
  obtain ⟨x, hx⟩ := howns.noLeak p hp
  refine howns.not_owner ?_ p hx
  cases x with
  | none => rfl
  | some x =>
    change (Cells.initial.run ops x).join = none
    rw [hended x]
    rfl

/-- A value is copied, the copy is assigned to itself and moved, and all the variables end. -/
theorem heap_eq_none_of_ended_copies : ∃ s, run State.initial
      ([.value 0 ⟨true, 7⟩, .copy 1 0, .copyAssign 1 1, .default 2, .moveAssign 2 1, .destroy 1,
        .destroy 0, .destroy 2] : List (Op Nat (fun _ : Bool => Int))) = .ok s ∧
    ∀ p, s.heap p = none := by
  refine heap_eq_none_of_ended ?_ ?_ fun x => ?_
  · simp [Cells.ScopedAll, Cells.Scoped, Cells.exec, Cells.put, Cells.transfer, Cells.initial]
  · simp [Cells.MeetsAll, Cells.Meets, Cells.exec, Cells.put, Cells.held]
  · simp +contextual [Cells.run, Cells.exec, Cells.put, Cells.transfer, Cells.initial,
      Function.update_apply]

end XubinhServer.Any

import Mathlib.Tactic.Common

/-! Stateful computations that may stop early, and the rules of their pre- and
postconditions. A computation is an `EStateM`: it ends with a value and a state,
or it stops with a reason and the state in which it stopped. -/
namespace XubinhServer.Halting

variable {ε σ α β : Type}

/-- `x` run from `s` ends in `Q`, or stops in `E`. -/
def wp (x : EStateM ε σ α) (Q : α → σ → Prop) (E : ε → σ → Prop) (s : σ) : Prop :=
  match x s with
  | .ok a t => Q a t
  | .error e t => E e t

@[simp] theorem wp_pure (a : α) (Q : α → σ → Prop) (E : ε → σ → Prop) (s : σ) :
    wp (pure a) Q E s = Q a s := rfl

@[simp] theorem wp_throw (e : ε) (Q : α → σ → Prop) (E : ε → σ → Prop) (s : σ) :
    wp (throw e) Q E s = E e s := rfl

@[simp] theorem wp_get (Q : σ → σ → Prop) (E : ε → σ → Prop) (s : σ) :
    wp get Q E s = Q s s := rfl

@[simp] theorem wp_modify (f : σ → σ) (Q : PUnit → σ → Prop) (E : ε → σ → Prop) (s : σ) :
    wp (modify f) Q E s = Q ⟨⟩ (f s) := rfl

@[simp] theorem wp_modifyGet (f : σ → α × σ) (Q : α → σ → Prop) (E : ε → σ → Prop) (s : σ) :
    wp (modifyGet f) Q E s = Q (f s).1 (f s).2 := rfl

@[simp] theorem wp_bind (x : EStateM ε σ α) (f : α → EStateM ε σ β) (Q : β → σ → Prop)
    (E : ε → σ → Prop) (s : σ) :
    wp (x >>= f) Q E s = wp x (fun a => wp (f a) Q E) E s := by
  simp only [wp, bind, EStateM.bind]
  cases x s <;> rfl

@[simp] theorem wp_ite (c : Prop) [Decidable c] (x y : EStateM ε σ α) (Q : α → σ → Prop)
    (E : ε → σ → Prop) (s : σ) :
    wp (if c then x else y) Q E s = if c then wp x Q E s else wp y Q E s := by
  split <;> rfl

theorem wp_mono {x : EStateM ε σ α} {Q Q' : α → σ → Prop} {E E' : ε → σ → Prop} {s : σ}
    (h : wp x Q E s) (hQ : ∀ a t, Q a t → Q' a t) (hE : ∀ e t, E e t → E' e t) :
    wp x Q' E' s := by
  unfold wp at *
  cases hx : x s with
  | ok a t => rw [hx] at h; exact hQ a t h
  | error e t => rw [hx] at h; exact hE e t h

theorem wp_and {x : EStateM ε σ α} {Q Q' : α → σ → Prop} {E E' : ε → σ → Prop} {s : σ}
    (h : wp x Q E s) (h' : wp x Q' E' s) :
    wp x (fun a t => Q a t ∧ Q' a t) (fun e t => E e t ∧ E' e t) s := by
  unfold wp at *
  cases hx : x s with
  | ok a t => rw [hx] at h h'; exact ⟨h, h'⟩
  | error e t => rw [hx] at h h'; exact ⟨h, h'⟩

theorem wp_true (x : EStateM ε σ α) (s : σ) : wp x (fun _ _ => True) (fun _ _ => True) s := by
  unfold wp
  cases x s <;> trivial

/-- Two computations one after the other, with `I` in between. -/
theorem wp_seq {x : EStateM ε σ α} {f : α → EStateM ε σ β} {I : σ → Prop} {Q : β → σ → Prop}
    {E : ε → σ → Prop} {s : σ} (hx : wp x (fun _ => I) E s)
    (hf : ∀ a t, I t → wp (f a) Q E t) : wp (x >>= f) Q E s := by
  rw [wp_bind]
  exact wp_mono hx hf fun _ _ => id

theorem wp_of_ok {x : EStateM ε σ α} {Q : α → σ → Prop} {E : ε → σ → Prop} {s t : σ} {a : α}
    (h : wp x Q E s) (hx : x s = .ok a t) : Q a t := by
  rw [wp, hx] at h
  exact h

theorem wp_of_error {x : EStateM ε σ α} {Q : α → σ → Prop} {E : ε → σ → Prop} {s t : σ} {e : ε}
    (h : wp x Q E s) (hx : x s = .error e t) : E e t := by
  rw [wp, hx] at h
  exact h

/-- A computation that cannot stop ends normally. -/
theorem ok_of_wp {x : EStateM ε σ α} {Q : α → σ → Prop} {s : σ}
    (h : wp x Q (fun _ _ => False) s) : ∃ a t, x s = .ok a t ∧ Q a t := by
  unfold wp at h
  cases hx : x s with
  | ok a t => rw [hx] at h; exact ⟨a, t, rfl, h⟩
  | error e t => rw [hx] at h; exact h.elim

/-- What decides `P` at every end of a computation decides the computation. -/
theorem wp_iff_of {x : EStateM ε σ α} {P : Prop} {Q : α → σ → Prop} {E : ε → σ → Prop} {s : σ}
    (h : wp x (fun a t => Q a t ↔ P) (fun e t => E e t ↔ P) s) : wp x Q E s ↔ P := by
  unfold wp at *
  cases hx : x s with
  | ok a t => rwa [hx] at h
  | error e t => rwa [hx] at h

theorem bind_of_ok {x : EStateM ε σ α} {f : α → EStateM ε σ β} {s t : σ} {a : α}
    (h : x s = .ok a t) : (x >>= f) s = f a t := by
  simp only [bind, EStateM.bind, h]

theorem bind_of_error {x : EStateM ε σ α} {f : α → EStateM ε σ β} {s t : σ} {e : ε}
    (h : x s = .error e t) : (x >>= f) s = .error e t := by
  simp only [bind, EStateM.bind, h]

/-- The computations that keep the invariant `I` and stop only in `E`. -/
def Keeps (I : σ → Prop) (E : ε → σ → Prop) (x : EStateM ε σ α) : Prop :=
  ∀ s, I s → wp x (fun _ => I) E s

theorem Keeps.forM {γ : Type} {I : σ → Prop} {E : ε → σ → Prop} {f : γ → EStateM ε σ PUnit}
    {xs : List γ} (h : ∀ x ∈ xs, Keeps I E (f x)) : Keeps I E (xs.forM f) := by
  induction xs with
  | nil => exact fun s hs => hs
  | cons x xs ih =>
    intro s hs
    have hx := h x List.mem_cons_self s hs
    have ht := ih fun y hy => h y (List.mem_cons_of_mem x hy)
    exact wp_seq (f := fun _ => xs.forM f) hx fun _ => ht

/-- The pure computation `x` ends in `Q`, or stops in `E`. -/
def ends (x : Except ε α) (Q : α → Prop) (E : ε → Prop) : Prop :=
  match x with
  | .ok a => Q a
  | .error e => E e

@[simp] theorem ends_pure (a : α) (Q : α → Prop) (E : ε → Prop) :
    ends (pure a) Q E = Q a := rfl

@[simp] theorem ends_ok (a : α) (Q : α → Prop) (E : ε → Prop) : ends (.ok a) Q E = Q a := rfl

@[simp] theorem ends_throw (e : ε) (Q : α → Prop) (E : ε → Prop) :
    ends (throw e) Q E = E e := rfl

@[simp] theorem ends_bind (x : Except ε α) (f : α → Except ε β) (Q : β → Prop) (E : ε → Prop) :
    ends (x >>= f) Q E = ends x (fun a => ends (f a) Q E) E := by
  cases x <;> rfl

@[simp] theorem ends_ite (c : Prop) [Decidable c] (x y : Except ε α) (Q : α → Prop)
    (E : ε → Prop) : ends (if c then x else y) Q E = if c then ends x Q E else ends y Q E := by
  split <;> rfl

theorem ends_mono {x : Except ε α} {Q Q' : α → Prop} {E E' : ε → Prop} (h : ends x Q E)
    (hQ : ∀ a, Q a → Q' a) (hE : ∀ e, E e → E' e) : ends x Q' E' := by
  cases x with
  | ok a => exact hQ a h
  | error e => exact hE e h

/-- Lift a pure computation that may stop. -/
def liftPure (x : Except ε α) : EStateM ε σ α :=
  match x with
  | .ok a => pure a
  | .error e => throw e

@[simp] theorem wp_liftPure (x : Except ε α) (Q : α → σ → Prop) (E : ε → σ → Prop) (s : σ) :
    wp (liftPure x) Q E s = ends x (fun a => Q a s) fun e => E e s := by
  cases x <;> rfl

end XubinhServer.Halting

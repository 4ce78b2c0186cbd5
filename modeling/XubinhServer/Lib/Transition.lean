import Mathlib.Logic.Relation

/-! Runs of a transition relation, and what holds along them. -/
namespace XubinhServer.Transition

variable {σ : Type}

/-- `t` can be reached from `s` in finitely many steps. -/
abbrev Reaches (step : σ → σ → Prop) : σ → σ → Prop := Relation.ReflTransGen step

/-- The steps of `step` that are taken where `allowed` holds. -/
def Restricted (step : σ → σ → Prop) (allowed : σ → σ → Prop) : σ → σ → Prop :=
  fun s t => step s t ∧ allowed s t

variable {step : σ → σ → Prop} {I : σ → Prop} {s t : σ}

/-- What one step preserves, a run preserves. -/
theorem Reaches.invariant (h : Reaches step s t) (hs : I s)
    (hstep : ∀ a b, I a → step a b → I b) : I t := by
  induction h with
  | refl => exact hs
  | tail _ hab ih => exact hstep _ _ ih hab

/-- A run is seen as a run, if each step is seen as a step or not at all. -/
theorem Reaches.project {τ : Type} {seen : τ → τ → Prop} (f : σ → τ) (h : Reaches step s t)
    (hstep : ∀ a b, step a b → f b = f a ∨ seen (f a) (f b)) : Reaches seen (f s) (f t) := by
  induction h with
  | refl => exact .refl
  | tail _ hab ih =>
    cases hstep _ _ hab with
    | inl hsame =>
      rw [hsame]
      exact ih
    | inr hseen => exact ih.tail hseen

end XubinhServer.Transition

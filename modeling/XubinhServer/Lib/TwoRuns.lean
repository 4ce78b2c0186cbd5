import Mathlib.Tactic.Common

/-! Two computations that may fail, side by side. -/
namespace XubinhServer.TwoRuns

variable {ε α β γ δ : Type} {R : α → β → Prop} {S : γ → δ → Prop} {x : Except ε α}
  {y : Except ε β}

/-- Both fail alike, or both end in results that are related by `R`. -/
def Both (R : α → β → Prop) : Except ε α → Except ε β → Prop
  | .ok a, .ok b => R a b
  | .error e, .error e' => e = e'
  | _, _ => False

theorem Both.refl {x : Except ε α} {R : α → α → Prop} (hR : ∀ a, R a a) : Both R x x := by
  cases x with
  | ok a => exact hR a
  | error e => rfl

theorem Both.bind {f : α → Except ε γ} {g : β → Except ε δ} (h : Both R x y)
    (hf : ∀ a b, R a b → Both S (f a) (g b)) : Both S (x >>= f) (y >>= g) := by
  cases x with
  | ok a =>
    cases y with
    | ok b => exact hf a b h
    | error e => exact h.elim
  | error e =>
    cases y with
    | ok b => exact h.elim
    | error e' => exact h

end XubinhServer.TwoRuns

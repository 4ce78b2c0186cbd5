import Mathlib.Tactic.Common

/-! Loops that may go on for ever. A round either goes on with a state or leaves with a result,
and `run` makes a bounded number of rounds. -/
namespace XubinhServer.Loop

variable {σ ρ : Type} {body : σ → σ ⊕ ρ} {s t : σ} {r : ρ} {n : Nat}

def run (body : σ → σ ⊕ ρ) : (rounds : Nat) → σ → Option ρ
  | 0, _ => none
  | n + 1, s =>
    match body s with
    | .inl t => run body n t
    | .inr r => some r

/-- The loop is left after finitely many rounds. -/
def Terminates (body : σ → σ ⊕ ρ) (s : σ) : Prop := ∃ n r, run body n s = some r

theorem run_leaves (h : body s = .inr r) : run body (n + 1) s = some r := by
  rw [run, h]

theorem run_goes_on (h : body s = .inl t) : run body (n + 1) s = run body n t := by
  rw [run, h]

/-- The variant rule: from where the invariant holds, a round either goes on, keeps it and makes
the measure less, or leaves with a result as wanted. -/
theorem returns_of_variant {I : σ → Prop} {Q : ρ → Prop} (measure : σ → Nat)
    (hstep : ∀ s, I s → (∃ t, body s = .inl t ∧ I t ∧ measure t < measure s) ∨
      ∃ r, body s = .inr r ∧ Q r) (hs : I s) : ∃ n r, run body n s = some r ∧ Q r := by
  induction hm : measure s using Nat.strongRecOn generalizing s with
  | ind m ih =>
    cases hstep s hs with
    | inl hgoes =>
      obtain ⟨t, hbody, ht, hlt⟩ := hgoes
      obtain ⟨n, r, hrun, hr⟩ := ih (measure t) (hm ▸ hlt) ht rfl
      exact ⟨n + 1, r, (run_goes_on hbody).trans hrun, hr⟩
    | inr hleaves =>
      obtain ⟨r, hbody, hr⟩ := hleaves
      exact ⟨1, r, run_leaves hbody, hr⟩

/-- The loop never ends where every round that the invariant allows goes on and keeps it. -/
theorem not_terminates_of_invariant {I : σ → Prop}
    (hstep : ∀ s, I s → ∃ t, body s = .inl t ∧ I t) (hs : I s) : ¬Terminates body s := by
  intro hends
  obtain ⟨n, r, hr⟩ := hends
  induction n generalizing s with
  | zero => exact nomatch hr
  | succ n ih =>
    obtain ⟨t, hbody, ht⟩ := hstep s hs
    rw [run_goes_on hbody] at hr
    exact ih ht hr

/-- The counting rule: where a loop counts its rounds and is left exactly at the counts that end
it, it returns exactly if there is such a count. -/
theorem returns_iff_of_count {I : σ → Prop} {Q : ρ → Prop} (count : σ → Nat) (Ends : Nat → Prop)
    (hgoes : ∀ s, I s → ¬Ends (count s) →
      ∃ t, body s = .inl t ∧ I t ∧ count t = count s + 1)
    (hleaves : ∀ s, I s → Ends (count s) → ∃ r, body s = .inr r ∧ Q r)
    (hs : I s) (hzero : count s = 0) : (∃ n r, run body n s = some r ∧ Q r) ↔ ∃ k, Ends k := by
  constructor
  · intro hreturns
    by_contra hnever
    obtain ⟨n, r, hrun, _⟩ := hreturns
    refine not_terminates_of_invariant (I := I) (fun t ht => ?_) hs ⟨n, r, hrun⟩
    obtain ⟨u, hbody, hu, _⟩ := hgoes t ht fun hends => hnever ⟨_, hends⟩
    exact ⟨u, hbody, hu⟩
  · intro hends
    obtain ⟨k, hk⟩ := hends
    -- the rounds that are left before the count `k`
    refine returns_of_variant (I := fun t => count t ≤ k ∧ I t) (fun t => k - count t)
      (fun t ht => ?_) ⟨by omega, hs⟩
    obtain ⟨hle, ht⟩ := ht
    by_cases hends : Ends (count t)
    · exact .inr (hleaves t ht hends)
    · obtain ⟨u, hbody, hu, hcount⟩ := hgoes t ht hends
      have hne : count t ≠ k := by
        intro heq
        exact hends (heq ▸ hk)
      exact .inl ⟨u, hbody, ⟨by omega, hu⟩, by omega⟩

section Stateful

variable {ε α β : Type}

/-- A round that is a computation: it goes on with a value, leaves with another, or stops. -/
def round (body : α → EStateM ε σ (α ⊕ β)) (s : α × σ) : (α × σ) ⊕ EStateM.Result ε σ β :=
  match body s.1 s.2 with
  | .ok (.inl a) t => .inl (a, t)
  | .ok (.inr b) t => .inr (.ok b t)
  | .error e t => .inr (.error e t)

variable {action : α → EStateM ε σ (α ⊕ β)} {a a' : α} {b : β} {e : ε}

theorem round_goes_on (h : action a s = .ok (.inl a') t) :
    round action (a, s) = .inl (a', t) := by
  rw [round, h]

theorem round_leaves (h : action a s = .ok (.inr b) t) :
    round action (a, s) = .inr (.ok b t) := by
  rw [round, h]

theorem round_stops (h : action a s = .error e t) :
    round action (a, s) = .inr (.error e t) := by
  rw [round, h]

end Stateful

end XubinhServer.Loop

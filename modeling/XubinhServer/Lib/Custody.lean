import Mathlib.Data.List.Perm.Basic
import Mathlib.Logic.Function.Basic

/-! Things that are at one place each. A place has a list of things, and things move in lists from
one place to another. -/
namespace XubinhServer

variable {α κ : Type} {parts parts' : κ → List α} {all all' : α → Prop} {i j k : κ} {a : α}
  {m r l : List α}

/-- The lists of the places divide `all`: nothing is missing, and nothing is there twice. -/
structure Divides (parts : κ → List α) (all : α → Prop) : Prop where
  nodup : ∀ k, (parts k).Nodup
  place_eq : ∀ {j k a}, a ∈ parts j → a ∈ parts k → j = k
  mem : ∀ a, all a ↔ ∃ k, a ∈ parts k

namespace Divides

theorem not_mem (h : Divides parts all) (ha : a ∈ parts j) (hjk : j ≠ k) : a ∉ parts k :=
  fun hk => hjk (h.place_eq ha hk)

/-- What is written to a thing is seen at its place only. -/
theorem update_eq [DecidableEq α] {β : Type} (h : Divides parts all) (ha : a ∈ parts j)
    (f : α → β) (value : β) (k : κ) (hjk : j ≠ k) :
    ∀ b ∈ parts k, Function.update f a value b = f b := by
  intro b hb
  refine Function.update_of_ne (fun heq => ?_) _ _
  subst heq
  exact h.not_mem ha hjk hb

/-- Where a thing is after `m` has moved from `i` to `j`. -/
theorem mem_moved (hij : i ≠ j) (hi' : (parts' i).Perm r) (hj' : (parts' j).Perm (m ++ parts j))
    (hother : ∀ k, k ≠ i → k ≠ j → parts' k = parts k) (a : α) (k : κ) :
    a ∈ parts' k ↔ (k = j ∧ a ∈ m) ∨ (k = i ∧ a ∈ r) ∨ (k ≠ i ∧ a ∈ parts k) := by
  by_cases hki : k = i
  · subst hki
    rw [hi'.mem_iff]
    simp [hij]
  · by_cases hkj : k = j
    · subst hkj
      rw [hj'.mem_iff, List.mem_append]
      simp [hki]
    · rw [hother k hki hkj]
      simp [hki, hkj]

/-- The things `m` move from `i` to `j`. -/
theorem moved (h : Divides parts all) (hij : i ≠ j) (hi : (parts i).Perm (m ++ r))
    (hi' : (parts' i).Perm r) (hj' : (parts' j).Perm (m ++ parts j))
    (hother : ∀ k, k ≠ i → k ≠ j → parts' k = parts k) : Divides parts' all := by
  have hm : ∀ a ∈ m, a ∈ parts i := fun a ha => hi.mem_iff.mpr (List.mem_append_left r ha)
  have hr : ∀ a ∈ r, a ∈ parts i := fun a ha => hi.mem_iff.mpr (List.mem_append_right m ha)
  have hsplit := List.nodup_append.mp (hi.nodup_iff.mp (h.nodup i))
  have hmem := mem_moved hij hi' hj' hother
  constructor
  · intro k
    by_cases hki : k = i
    · subst hki
      exact hi'.nodup_iff.mpr hsplit.2.1
    · by_cases hkj : k = j
      · subst hkj
        refine hj'.nodup_iff.mpr (List.nodup_append.mpr ⟨hsplit.1, h.nodup k, ?_⟩)
        intro a ha b hb heq
        subst heq
        exact hij (h.place_eq (hm a ha) hb)
      · rw [hother k hki hkj]
        exact h.nodup k
  · intro p q a hp hq
    -- a thing of `m` is at `j` only, a thing of `r` at `i` only, and the others have not moved
    obtain ⟨rfl, hp⟩ | ⟨rfl, hp⟩ | ⟨hpi, hp⟩ := (hmem a p).mp hp
    · obtain ⟨rfl, _⟩ | ⟨_, hq⟩ | ⟨hqi, hq⟩ := (hmem a q).mp hq
      · rfl
      · exact absurd rfl (hsplit.2.2 a hp a hq)
      · exact absurd (h.place_eq hq (hm a hp)) hqi
    · obtain ⟨_, hq⟩ | ⟨rfl, _⟩ | ⟨hqi, hq⟩ := (hmem a q).mp hq
      · exact absurd rfl (hsplit.2.2 a hq a hp)
      · rfl
      · exact absurd (h.place_eq hq (hr a hp)) hqi
    · obtain ⟨_, hq⟩ | ⟨_, hq⟩ | ⟨_, hq⟩ := (hmem a q).mp hq
      · exact absurd (h.place_eq hp (hm a hq)) hpi
      · exact absurd (h.place_eq hp (hr a hq)) hpi
      · exact h.place_eq hp hq
  · intro a
    rw [h.mem a]
    constructor
    · intro hex
      obtain ⟨k, hk⟩ := hex
      by_cases hki : k = i
      · subst hki
        cases List.mem_append.mp (hi.mem_iff.mp hk) with
        | inl ham => exact ⟨j, (hmem a j).mpr (.inl ⟨rfl, ham⟩)⟩
        | inr har => exact ⟨k, (hmem a k).mpr (.inr (.inl ⟨rfl, har⟩))⟩
      · exact ⟨k, (hmem a k).mpr (.inr (.inr ⟨hki, hk⟩))⟩
    · intro hex
      obtain ⟨k, hk⟩ := hex
      obtain ⟨_, hk⟩ | ⟨_, hk⟩ | ⟨_, hk⟩ := (hmem a k).mp hk
      · exact ⟨i, hm a hk⟩
      · exact ⟨i, hr a hk⟩
      · exact ⟨k, hk⟩

/-- New things come to the place `j`. -/
theorem grown (h : Divides parts all) (hl : l.Nodup) (hnew : ∀ a ∈ l, ¬all a)
    (hall : ∀ a, all' a ↔ a ∈ l ∨ all a) (hj : (parts' j).Perm (l ++ parts j))
    (hother : ∀ k, k ≠ j → parts' k = parts k) : Divides parts' all' := by
  have hold : ∀ k, ∀ a ∈ parts k, a ∉ l := fun k a ha hal => hnew a hal ((h.mem a).mpr ⟨k, ha⟩)
  have hmem : ∀ a k, a ∈ parts' k ↔ (k = j ∧ a ∈ l) ∨ a ∈ parts k := by
    intro a k
    by_cases hkj : k = j
    · subst hkj
      rw [hj.mem_iff, List.mem_append]
      simp
    · rw [hother k hkj]
      simp [hkj]
  constructor
  · intro k
    by_cases hkj : k = j
    · subst hkj
      refine hj.nodup_iff.mpr (List.nodup_append.mpr ⟨hl, h.nodup k, ?_⟩)
      intro a ha b hb heq
      subst heq
      exact hold k a hb ha
    · rw [hother k hkj]
      exact h.nodup k
  · intro p q a hp hq
    obtain ⟨rfl, hp⟩ | hp := (hmem a p).mp hp
    · obtain ⟨rfl, _⟩ | hq := (hmem a q).mp hq
      · rfl
      · exact absurd hp (hold q a hq)
    · obtain ⟨_, hq⟩ | hq := (hmem a q).mp hq
      · exact absurd hq (hold p a hp)
      · exact h.place_eq hp hq
  · intro a
    rw [hall, h.mem a]
    constructor
    · intro hor
      cases hor with
      | inl hal => exact ⟨j, (hmem a j).mpr (.inl ⟨rfl, hal⟩)⟩
      | inr hex =>
        obtain ⟨k, hk⟩ := hex
        exact ⟨k, (hmem a k).mpr (.inr hk)⟩
    · intro hex
      obtain ⟨k, hk⟩ := hex
      obtain ⟨_, hk⟩ | hk := (hmem a k).mp hk
      · exact .inl hk
      · exact .inr ⟨k, hk⟩

end Divides

end XubinhServer

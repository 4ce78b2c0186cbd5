import Mathlib.Data.List.Nodup
import Mathlib.Data.List.Pairwise
import Mathlib.Logic.Function.Basic
import Mathlib.Tactic.Ring

/-! Lists that are linked through the memory of their own nodes. -/
namespace XubinhServer.FreeList

variable {α : Type} {next next' : α → Option α} {head last v : Option α} {a : α} {l m : List α}

/-- The nodes `l` follow each other from `head` on, and the last one leads to `last`. -/
def Linked (next : α → Option α) : Option α → List α → Option α → Prop
  | head, [], last => head = last
  | head, a :: l, last => head = some a ∧ Linked next (next a) l last

@[simp] theorem linked_nil : Linked next head [] last ↔ head = last := Iff.rfl

@[simp] theorem linked_cons :
    Linked next head (a :: l) last ↔ head = some a ∧ Linked next (next a) l last := Iff.rfl

theorem linked_append :
    Linked next head (l ++ m) last ↔ ∃ mid, Linked next head l mid ∧ Linked next mid m last := by
  induction l generalizing head with
  | nil => simp
  | cons a l ih =>
    rw [List.cons_append, linked_cons, ih]
    constructor
    · intro h
      obtain ⟨hhead, mid, hl, hm⟩ := h
      exact ⟨mid, ⟨hhead, hl⟩, hm⟩
    · intro h
      obtain ⟨mid, ⟨hhead, hl⟩, hm⟩ := h
      exact ⟨hhead, mid, hl, hm⟩

/-- Only the nodes of a list matter for it. -/
theorem Linked.congr (h : Linked next head l last) (hnext : ∀ a ∈ l, next' a = next a) :
    Linked next' head l last := by
  induction l generalizing head with
  | nil => exact h
  | cons a l ih =>
    obtain ⟨hhead, hl⟩ := h
    refine ⟨hhead, ?_⟩
    rw [hnext a List.mem_cons_self]
    exact ih hl fun b hb => hnext b (List.mem_cons_of_mem a hb)

theorem Linked.eq_nil (h : Linked next none l none) : l = [] := by
  cases l with
  | nil => rfl
  | cons a l => cases h.1

theorem Linked.pop (h : Linked next (some a) l none) :
    ∃ m, l = a :: m ∧ Linked next (next a) m none := by
  cases l with
  | nil => cases h
  | cons b m =>
    obtain ⟨hhead, hm⟩ := h
    cases hhead
    exact ⟨m, rfl, hm⟩

theorem Linked.head_eq (h : Linked next head l none) : head = l.head? := by
  cases l with
  | nil => exact h
  | cons a l => exact h.1

theorem Linked.next_eq (h : Linked next head (l ++ [a]) last) : next a = last := by
  obtain ⟨mid, _, hmid⟩ := linked_append.mp h
  exact hmid.2

/-- `n` steps along the list. -/
def walk (next : α → Option α) : Nat → α → Option α
  | 0, a => some a
  | n + 1, a => (next a).bind (walk next n)

/-- A walk does not leave a list that is long enough. -/
theorem Linked.walk_eq (h : Linked next (some a) l last) {n : Nat} (hn : n < l.length) :
    walk next n a = some l[n] := by
  induction n generalizing a l with
  | zero =>
    cases l with
    | nil => cases hn
    | cons b l =>
      obtain ⟨hhead, _⟩ := h
      cases hhead
      rfl
  | succ n ih =>
    cases l with
    | nil => cases hn
    | cons b l =>
      obtain ⟨hhead, hl⟩ := h
      cases hhead
      cases l with
      | nil => simp at hn
      | cons b l =>
        have hb := hl.1
        rw [hb] at hl
        have hwalk := ih hl (by simpa using hn)
        rw [walk, hb]
        exact hwalk

section Update

variable [DecidableEq α]

theorem Linked.update (h : Linked next head l last) (ha : a ∉ l) (v : Option α) :
    Linked (Function.update next a v) head l last := by
  refine h.congr fun b hb => ?_
  have hne : b ≠ a := fun heq => ha (heq ▸ hb)
  exact Function.update_of_ne hne v next

theorem Linked.push (h : Linked next head l last) (ha : a ∉ l) :
    Linked (Function.update next a head) (some a) (a :: l) last := by
  refine ⟨rfl, ?_⟩
  rw [Function.update_self]
  exact h.update ha head

/-- The last node is led elsewhere. -/
theorem Linked.setLast (h : Linked next head (l ++ [a]) last) (ha : a ∉ l) (v : Option α) :
    Linked (Function.update next a v) head (l ++ [a]) v := by
  obtain ⟨mid, hl, hmid⟩ := linked_append.mp h
  refine linked_append.mpr ⟨mid, hl.update ha v, hmid.1, ?_⟩
  rw [Function.update_self]
  rfl

/-- A list is cut behind the node `a`. -/
theorem Linked.cut (h : Linked next head (l ++ [a] ++ m) last) (hnodup : (l ++ [a] ++ m).Nodup) :
    Linked (Function.update next a none) head (l ++ [a]) none ∧
      Linked (Function.update next a none) (next a) m last := by
  obtain ⟨mid, hl, hm⟩ := linked_append.mp h
  rw [hl.next_eq]
  obtain ⟨hleft, _, hdisjoint⟩ := List.nodup_append.mp hnodup
  have hal : a ∉ l := by
    intro hmem
    exact (List.nodup_append.mp hleft).2.2 a hmem a (List.mem_singleton_self a) rfl
  have ham : a ∉ m := fun hmem => hdisjoint a (by simp) a hmem rfl
  exact ⟨hl.setLast hal none, hm.update ham none⟩

end Update

section Carve

variable {width base current n : Nat} {next : Nat → Option Nat} {head last : Option Nat}
  {l : List Nat} {a : Nat}

/-- The addresses of `n` slabs that lie one behind the other. -/
def slabs (width : Nat) : Nat → Nat → List Nat
  | _, 0 => []
  | base, n + 1 => base :: slabs width (base + width) n

/-- Push the `n` slabs from `current` on, one after the other. -/
def carve (width : Nat) :
    Nat → Nat → Option Nat → (Nat → Option Nat) → Option Nat × (Nat → Option Nat)
  | 0, _, head, next => (head, next)
  | n + 1, current, head, next =>
    carve width n (current + width) (some current) (Function.update next current head)

@[simp] theorem length_slabs : (slabs width base n).length = n := by
  induction n generalizing base with
  | zero => rfl
  | succ n ih => rw [slabs, List.length_cons, ih]

theorem slabs_append (m : Nat) :
    slabs width base (n + m) = slabs width base n ++ slabs width (base + width * n) m := by
  induction n generalizing base with
  | zero => simp [slabs]
  | succ n ih =>
    rw [show n + 1 + m = n + m + 1 by omega, slabs, slabs, ih, List.cons_append,
      show base + width + width * n = base + width * (n + 1) by ring]

theorem slabs_succ : slabs width base (n + 1) = slabs width base n ++ [base + width * n] :=
  slabs_append 1

theorem mem_slabs_of_le {m : Nat} (h : a ∈ slabs width base n) (hle : n ≤ m) :
    a ∈ slabs width base m := by
  obtain ⟨k, rfl⟩ := Nat.exists_eq_add_of_le hle
  rw [slabs_append]
  exact List.mem_append_left _ h

theorem base_mem_slabs (hn : 0 < n) : base ∈ slabs width base n := by
  cases n with
  | zero => cases hn
  | succ n => exact List.mem_cons_self

theorem mem_slabs_bounds (h : a ∈ slabs width base n) :
    base ≤ a ∧ a + width ≤ base + width * n := by
  induction n generalizing base with
  | zero => cases h
  | succ n ih =>
    have hsum : base + width * (n + 1) = base + width + width * n := by ring
    cases List.mem_cons.mp h with
    | inl heq => omega
    | inr hmem =>
      have hbounds := ih hmem
      omega

/-- The bytes of two slabs do not meet. -/
def Apart (width a b : Nat) : Prop := a + width ≤ b ∨ b + width ≤ a

instance : Std.Symm (Apart width) := ⟨fun _ _ h => h.symm⟩

theorem pairwise_slabs : (slabs width base n).Pairwise (Apart width) := by
  induction n generalizing base with
  | zero => exact List.Pairwise.nil
  | succ n ih =>
    refine List.Pairwise.cons (fun b hb => ?_) ih
    exact .inl (mem_slabs_bounds hb).1

theorem apart_of_mem_slabs {b : Nat} (ha : a ∈ slabs width base n) (hb : b ∈ slabs width base n)
    (hab : a ≠ b) : Apart width a b :=
  pairwise_slabs.forall ha hb hab

theorem Apart.ne {b : Nat} (hwidth : 0 < width) (h : Apart width a b) : a ≠ b := by
  intro heq
  subst heq
  cases h with
  | inl h => omega
  | inr h => omega

theorem nodup_slabs (hwidth : 0 < width) : (slabs width base n).Nodup :=
  pairwise_slabs.imp fun h => h.ne hwidth

/-- New slabs that are apart from the old ones leave all of them apart. -/
theorem apart_of_grown {old new : Nat → Prop}
    (hnew : ∀ a, new a ↔ a ∈ slabs width base n ∨ old a)
    (hapart : ∀ a ∈ slabs width base n, ∀ b, old b → Apart width a b)
    (hold : ∀ a b, old a → old b → a ≠ b → Apart width a b) :
    ∀ a b, new a → new b → a ≠ b → Apart width a b := by
  intro a b ha hb hab
  cases (hnew a).mp ha with
  | inl ha =>
    cases (hnew b).mp hb with
    | inl hb => exact apart_of_mem_slabs ha hb hab
    | inr hb => exact hapart a ha b hb
  | inr ha =>
    cases (hnew b).mp hb with
    | inl hb => exact (hapart b hb a ha).symm
    | inr hb => exact hold a b ha hb hab

theorem carve_snd (ha : a ∉ slabs width current n) :
    (carve width n current head next).2 a = next a := by
  induction n generalizing current head next with
  | zero => rfl
  | succ n ih =>
    rw [slabs, List.mem_cons, not_or] at ha
    rw [carve, ih ha.2, Function.update_of_ne ha.1]

theorem Linked.carve (hwidth : 0 < width) (h : Linked next head l last)
    (hl : ∀ a ∈ slabs width current n, a ∉ l) :
    Linked (carve width n current head next).2 (carve width n current head next).1
      ((slabs width current n).reverse ++ l) last := by
  induction n generalizing current head next l with
  | zero => exact h
  | succ n ih =>
    have hcurrent : current ∉ l := hl current List.mem_cons_self
    rw [FreeList.carve, slabs, List.reverse_cons, List.append_assoc]
    refine ih (h.push hcurrent) fun a ha hmem => ?_
    have hlater : current + width ≤ a := (mem_slabs_bounds ha).1
    cases List.mem_cons.mp hmem with
    | inl heq => omega
    | inr hmem => exact hl a (List.mem_cons_of_mem _ ha) hmem

end Carve

end XubinhServer.FreeList

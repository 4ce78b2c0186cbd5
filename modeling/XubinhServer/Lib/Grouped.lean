import Mathlib.Data.List.Nodup

/-! A stream of pieces that go to named places, one place after the other. -/
namespace XubinhServer

variable {κ α β : Type} [DecidableEq κ]

/-- What has gone to the place `name`. -/
def piecesOf (name : κ) (records : List (κ × List α)) : List α :=
  (records.filter fun r => r.1 = name).flatMap (·.2)

theorem piecesOf_append (name : κ) (records : List (κ × List α)) (r : κ × List α) :
    piecesOf name (records ++ [r]) = piecesOf name records ++ if r.1 = name then r.2 else [] := by
  by_cases hr : r.1 = name <;> simp [piecesOf, hr]

/-- The places `keys` of the pieces are in the order of `names`: a place that has been left is
not used again. -/
structure Grouped (names keys : List κ) : Prop where
  nodup : names.Nodup
  mem : ∀ key ∈ keys, key ∈ names
  stream : (names.flatMap fun name => keys.filter (· = name)) = keys

namespace Grouped

variable {names keys : List κ} {name : κ}

/-- Another piece goes to the last place. -/
theorem append (h : Grouped (names ++ [name]) keys) :
    Grouped (names ++ [name]) (keys ++ [name]) where
  nodup := h.nodup
  mem key hkey := by
    cases List.mem_append.mp hkey with
    | inl hold => exact h.mem key hold
    | inr hnew =>
      rw [List.mem_singleton.mp hnew]
      exact List.mem_append_right _ (List.mem_singleton_self _)
  stream := by
    have hother : ∀ n ∈ names, (keys ++ [name]).filter (· = n) = keys.filter (· = n) := by
      intro n hn
      have hne : name ≠ n := fun heq =>
        (List.nodup_append.mp h.nodup).2.2 n hn name (List.mem_singleton_self _) heq.symm
      simp [List.filter_append, hne]
    have hsame : (keys ++ [name]).filter (· = name) = keys.filter (· = name) ++ [name] := by
      simp [List.filter_append]
    have hstream := h.stream
    rw [List.flatMap_append, List.flatMap_singleton] at hstream ⊢
    rw [List.flatMap_congr hother, hsame, ← List.append_assoc, hstream]

/-- A new place comes behind the others. -/
theorem open_new (h : Grouped names keys) (hnew : name ∉ names) :
    Grouped (names ++ [name]) keys where
  nodup := List.nodup_append.mpr ⟨h.nodup, List.nodup_singleton _, by
    intro a ha b hb heq
    rw [List.mem_singleton.mp hb] at heq
    rw [heq] at ha
    exact hnew ha⟩
  mem key hkey := List.mem_append_left _ (h.mem key hkey)
  stream := by
    have hnone : keys.filter (· = name) = [] := by
      refine List.filter_eq_nil_iff.mpr fun key hkey heq => hnew ?_
      rw [← of_decide_eq_true heq]
      exact h.mem key hkey
    rw [List.flatMap_append, List.flatMap_singleton, hnone, List.append_nil, h.stream]

/-- The pieces of the first place come first. -/
theorem uncons {records : List β} {key : β → κ}
    (h : Grouped (name :: names) (records.map key)) :
    ∃ first rest, records = first ++ rest ∧ (∀ r ∈ first, key r = name) ∧
      Grouped names (rest.map key) := by
  obtain ⟨hname, hnodup⟩ := List.nodup_cons.mp h.nodup
  have hstream := h.stream
  rw [List.flatMap_cons] at hstream
  obtain ⟨first, rest, hsplit, hfirst, hrest⟩ := List.map_eq_append_iff.mp hstream.symm
  have hkey : ∀ r ∈ first, key r = name := by
    intro r hr
    have hmem : key r ∈ (records.map key).filter (· = name) := by
      rw [← hfirst]
      exact List.mem_map_of_mem hr
    exact of_decide_eq_true (List.mem_filter.mp hmem).2
  refine ⟨first, rest, hsplit, hkey, hnodup, fun k hk => ?_, ?_⟩
  · rw [hrest] at hk
    obtain ⟨n, hn, hmem⟩ := List.mem_flatMap.mp hk
    rw [of_decide_eq_true (List.mem_filter.mp hmem).2]
    exact hn
  · have hothers : ∀ n ∈ names,
        (rest.map key).filter (· = n) = (records.map key).filter (· = n) := by
      intro n hn
      have hnone : (first.map key).filter (· = n) = [] := by
        refine List.filter_eq_nil_iff.mpr fun k hk heq => ?_
        obtain ⟨r, hr, hrk⟩ := List.mem_map.mp hk
        rw [← of_decide_eq_true heq, ← hrk, hkey r hr] at hn
        exact hname hn
      rw [hsplit, List.map_append, List.filter_append, hnone, List.nil_append]
    rw [List.flatMap_congr hothers]
    exact hrest.symm

/-- Whatever the pieces carry, they are the pieces of one place after the other. -/
theorem regroup {records : List β} {key : β → κ} (h : Grouped names (records.map key)) :
    (names.flatMap fun name => records.filter fun r => key r = name) = records := by
  induction names generalizing records with
  | nil =>
    have hnil : records.map key = [] := h.stream.symm
    rw [List.map_eq_nil_iff.mp hnil]
    rfl
  | cons name names ih =>
    have hname := (List.nodup_cons.mp h.nodup).1
    obtain ⟨first, rest, hsplit, hfirst, hgrouped⟩ := h.uncons
    have hrest : ∀ r ∈ rest, key r ∈ names := fun r hr => hgrouped.mem _ (List.mem_map_of_mem hr)
    have hself : (records.filter fun r => key r = name) = first := by
      have hall : (first.filter fun r => key r = name) = first :=
        List.filter_eq_self.mpr fun r hr => decide_eq_true (hfirst r hr)
      have hnone : (rest.filter fun r => key r = name) = [] := by
        refine List.filter_eq_nil_iff.mpr fun r hr heq => hname ?_
        rw [← of_decide_eq_true heq]
        exact hrest r hr
      rw [hsplit, List.filter_append, hall, hnone, List.append_nil]
    have hlater : ∀ n ∈ names, (records.filter fun r => key r = n) =
        rest.filter fun r => key r = n := by
      intro n hn
      have hnone : (first.filter fun r => key r = n) = [] := by
        refine List.filter_eq_nil_iff.mpr fun r hr heq => hname ?_
        rw [← hfirst r hr, of_decide_eq_true heq]
        exact hn
      rw [hsplit, List.filter_append, hnone, List.nil_append]
    rw [List.flatMap_cons, hself, List.flatMap_congr hlater, ih hgrouped, hsplit]

/-- The places hold the stream, one behind the other. -/
theorem contents {records : List (κ × List α)} (h : Grouped names (records.map (·.1))) :
    (names.flatMap fun name => piecesOf name records) = records.flatMap (·.2) := by
  have hstream := congrArg (List.flatMap (·.2)) h.regroup
  rwa [List.flatMap_assoc] at hstream

end Grouped

end XubinhServer

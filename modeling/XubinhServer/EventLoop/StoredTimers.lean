import Mathlib.Data.Finset.Sort
import XubinhServer.EventLoop.Expiry
import XubinhServer.EventLoop.Turns

/-! The set `_timers` with its keys in view. A key is a copy of the expiration time point that the
timer had when it was inserted, and `expire_once` changes the timer itself. -/
namespace XubinhServer.EventLoop

open Transition

open Function (update)

/-- An entry of `_timers`: a key, and the timer that it stands for. -/
structure Entry where
  key : Int
  address : Nat
  deriving DecidableEq, Repr

namespace Entry

def Le (a b : Entry) : Prop := a.key < b.key ∨ a.key = b.key ∧ a.address ≤ b.address

def Lt (a b : Entry) : Prop := a.key < b.key ∨ a.key = b.key ∧ a.address < b.address

instance : DecidableRel Le := fun a b =>
  inferInstanceAs (Decidable (a.key < b.key ∨ a.key = b.key ∧ a.address ≤ b.address))

instance : DecidableRel Lt := fun a b =>
  inferInstanceAs (Decidable (a.key < b.key ∨ a.key = b.key ∧ a.address < b.address))

instance : IsTrans Entry Le := ⟨fun a b c => by simp only [Le]; omega⟩

instance : Std.Total Le := ⟨fun a b => by simp only [Le]; omega⟩

instance : Std.Antisymm Le := ⟨fun a b hab hba => by
  obtain ⟨key, address⟩ := a
  obtain ⟨key', address'⟩ := b
  simp only [Le] at hab hba
  have hkey : key = key' := by omega
  have haddress : address = address' := by omega
  rw [hkey, haddress]⟩

theorem Le.key_le {a b : Entry} (h : a.Le b) : a.key ≤ b.key := by
  simp only [Le] at h
  omega

/-- No address is below the null pointer. -/
theorem lt_lowerBound {x : Entry} {key : Int} : x.Lt ⟨key, 0⟩ ↔ x.key < key := by
  simp only [Lt]
  omega

end Entry

/-- How a timer is asked for: `run_at_time_point`, or `run_after_time_interval` when the clock
reads `clock`. -/
inductive Start where
  | atTimePoint (timePoint : Int)
  | afterTimeInterval (clock timeInterval : Int)
  deriving DecidableEq, Repr

namespace Start

/-- The first expiration in exact numbers. -/
def exact : Start → Int
  | .atTimePoint timePoint => timePoint
  | .afterTimeInterval clock timeInterval => clock + timeInterval

def timePoint : Start → Int
  | .atTimePoint timePoint => timePoint
  | .afterTimeInterval clock timeInterval => TimePoint.add clock timeInterval

/-- The arguments are 64-bit numbers. -/
def InRange : Start → Prop
  | .atTimePoint timePoint => TimePoint.InRange timePoint
  | .afterTimeInterval clock timeInterval =>
    TimePoint.InRange clock ∧ TimePoint.InRange timeInterval

end Start

/-- A timer that exists, with what it was asked for and how often its callback has been called. -/
structure TimerObject where
  timer : Timer
  start : Start
  repetitionTimeInterval : Int
  invocations : Nat
  deriving DecidableEq, Repr

/-- A call of a timer's callback, the `index`-th one. -/
structure Invocation where
  start : Start
  repetitionTimeInterval : Int
  index : Nat
  timePoint : Int
  deriving DecidableEq, Repr

/-- A pass of `_expire_timers_and_update_alarm`. -/
structure StoredPass where
  timePoint : Int
  running : Option Nat
  expiredTimers : List Nat
  timersThatAreStillValid : List Nat
  deriving DecidableEq, Repr

def StoredPass.addresses (pass : StoredPass) : List Nat :=
  pass.running.toList ++ pass.expiredTimers ++ pass.timersThatAreStillValid

/-- The timers of a loop; the innermost pass comes first. -/
structure StoredTimers where
  timers : Finset Entry
  heap : Nat → Option TimerObject
  /-- created, and left to a functor that has not run -/
  created : List Nat
  passes : List StoredPass
  history : List Invocation

namespace StoredTimers

def initial : StoredTimers := ⟨∅, fun _ => none, [], [], []⟩

def getExpirationTimePoint (s : StoredTimers) (address : Nat) : Option Int :=
  (s.heap address).map (·.timer.expirationTimePoint)

/-- Put a timer at an address, or delete the one there. -/
@[simps] def store (s : StoredTimers) (address : Nat) (object : Option TimerObject) :
    StoredTimers :=
  { s with heap := update s.heap address object }

def createTimer (s : StoredTimers) (address : Nat) (start : Start)
    (repetitionTimeInterval numberOfRepetitions : Int) : StoredTimers :=
  { s.store address (some
      ⟨.new address start.timePoint repetitionTimeInterval numberOfRepetitions, start,
        repetitionTimeInterval, 0⟩) with
    created := address :: s.created }

/-- The set never has an entry twice. -/
def insertOne (s : StoredTimers) (address : Nat) : StoredTimers :=
  match s.getExpirationTimePoint address with
  | none => s
  | some expirationTimePoint =>
    { s with timers := insert ⟨expirationTimePoint, address⟩ s.timers }

def insertAll (s : StoredTimers) (addresses : List Nat) : StoredTimers :=
  addresses.foldl insertOne s

def removeOne (s : StoredTimers) (address : Nat) : Bool × StoredTimers :=
  match s.getExpirationTimePoint address with
  | none => (false, s)
  | some expirationTimePoint =>
    (decide (⟨expirationTimePoint, address⟩ ∈ s.timers),
      { s with timers := s.timers.erase ⟨expirationTimePoint, address⟩ })

/-- The entries up to the lower bound, in the order of the set, and the set without them. -/
def moveOutBeforeOrAt (s : StoredTimers) (expirationTimePoint : Int) :
    List Nat × StoredTimers :=
  let bound : Entry := ⟨TimePoint.add expirationTimePoint 1, 0⟩
  (((s.timers.filter (·.Lt bound)).sort Entry.Le).map Entry.address,
    { s with timers := s.timers.filter (¬·.Lt bound) })

def add (s : StoredTimers) (address : Nat) : StoredTimers :=
  { s.insertOne address with created := s.created.erase address }

/-- Where no timers are left it returns early. -/
def cancel (s : StoredTimers) (address : Nat) : StoredTimers :=
  let (removed, t) := s.removeOne address
  if !removed then s
  else if t.timers = ∅ then t
  else t.store address none

def beginPass (s : StoredTimers) (timePoint : Int) : StoredTimers :=
  let (expiredTimers, t) := s.moveOutBeforeOrAt timePoint
  { t with passes := ⟨timePoint, none, expiredTimers, []⟩ :: t.passes }

/-- `expire_once` enters the callback. -/
def invoke (s : StoredTimers) (pass : StoredPass) (passes : List StoredPass) (address : Nat) :
    StoredTimers :=
  match s.heap address with
  | none => s
  | some object =>
    { s.store address (some { object with invocations := object.invocations + 1 }) with
      passes := { pass with running := some address } :: passes
      history := s.history ++ [⟨object.start, object.repetitionTimeInterval,
        object.invocations + 1, pass.timePoint⟩] }

/-- What `expire_once` does behind the callback, and the rest of the round. -/
def afterCallback (s : StoredTimers) (pass : StoredPass) (passes : List StoredPass)
    (address : Nat) : StoredTimers :=
  match s.heap address with
  | none => s
  | some object =>
    let (isStillValid, timer, _) := object.timer.expireOnce id ()
    if !isStillValid then
      { s.store address none with passes := { pass with running := none } :: passes }
    else
      let t := s.store address (some { object with timer })
      if timer.expirationTimePoint > pass.timePoint then { t with
        passes := { pass with
          running := none
          timersThatAreStillValid := pass.timersThatAreStillValid ++ [address] } :: passes }
      else t.invoke pass passes address

def endPass (s : StoredTimers) (pass : StoredPass) (passes : List StoredPass) : StoredTimers :=
  { s.insertAll pass.timersThatAreStillValid with passes := passes }

/-- The loop thread is in an event callback, a functor or a timer callback. -/
def InUserCode (s : StoredTimers) : Prop :=
  match s.passes with
  | [] => True
  | pass :: _ => pass.running.isSome

/-- One step of the loop thread, or the creation of a timer in any thread. A timer that is
cancelled exists. The process ends where the kernel does not take the alarm; a run here goes on. -/
inductive Move : StoredTimers → StoredTimers → Prop
  | create {s} (address : Nat) (start : Start) (repetitionTimeInterval numberOfRepetitions : Int)
      (hfresh : s.heap address = none) (hstart : start.InRange) :
      Move s (s.createTimer address start repetitionTimeInterval numberOfRepetitions)
  | add {s} (address : Nat) (hcode : s.InUserCode) (hcreated : address ∈ s.created) :
      Move s (s.add address)
  | cancel {s} (address : Nat) (hcode : s.InUserCode) (hlive : (s.heap address).isSome) :
      Move s (s.cancel address)
  | beginPass {s} (timePoint : Int) (hcode : s.InUserCode) (hrange : TimePoint.InRange timePoint) :
      Move s (s.beginPass timePoint)
  | start {s} (pass : StoredPass) (passes : List StoredPass) (address : Nat) (rest : List Nat)
      (hpasses : s.passes = pass :: passes) (hrunning : pass.running = none)
      (hexpired : pass.expiredTimers = address :: rest) :
      Move s (s.invoke { pass with expiredTimers := rest } passes address)
  | afterCallback {s} (pass : StoredPass) (passes : List StoredPass) (address : Nat)
      (hpasses : s.passes = pass :: passes) (hrunning : pass.running = some address) :
      Move s (s.afterCallback pass passes address)
  | endPass {s} (pass : StoredPass) (passes : List StoredPass) (hpasses : s.passes = pass :: passes)
      (hrunning : pass.running = none) (hexpired : pass.expiredTimers = []) :
      Move s (s.endPass pass passes)

/-- The timers outside the set. -/
def outside (s : StoredTimers) : List Nat := s.passes.flatMap StoredPass.addresses ++ s.created

/-- Timers change outside the set only. -/
structure Keyed (s : StoredTimers) : Prop where
  keys : ∀ x ∈ s.timers, s.getExpirationTimePoint x.address = some x.key
  nodup : s.outside.Nodup
  live : ∀ a ∈ s.outside, (s.heap a).isSome
  apart : ∀ x ∈ s.timers, x.address ∉ s.outside

section Steps

variable {s t : StoredTimers} {address : Nat} {addresses : List Nat} {pass : StoredPass}
  {passes : List StoredPass} {object : Option TimerObject}

@[simp] theorem outside_store : (s.store address object).outside = s.outside := rfl

@[simp] theorem getExpirationTimePoint_store_of_ne {a : Nat} (h : a ≠ address) :
    (s.store address object).getExpirationTimePoint a = s.getExpirationTimePoint a := by
  rw [getExpirationTimePoint, store_heap, Function.update_of_ne h, getExpirationTimePoint]

theorem Keyed.eq_of_address (h : Keyed s) {x y : Entry} (hx : x ∈ s.timers) (hy : y ∈ s.timers)
    (hxy : x.address = y.address) : x = y := by
  have hkey := h.keys x hx
  rw [hxy, h.keys y hy, Option.some.injEq] at hkey
  obtain ⟨key, address⟩ := x
  obtain ⟨key', address'⟩ := y
  simp only at hkey hxy
  rw [hkey, hxy]

theorem Keyed.ne_of_outside (h : Keyed s) (ha : address ∈ s.outside) :
    ∀ x ∈ s.timers, x.address ≠ address :=
  fun x hx heq => h.apart x hx (heq ▸ ha)

/-- Timers that leave what is outside, or change places there. -/
theorem Keyed.of_subperm (h : Keyed s) (htimers : t.timers = s.timers) (hheap : t.heap = s.heap)
    (hout : List.Subperm t.outside s.outside) : Keyed t where
  keys x hx := by
    rw [htimers] at hx
    rw [getExpirationTimePoint, hheap]
    exact h.keys x hx
  nodup := by
    obtain ⟨l, hperm, hsub⟩ := hout
    exact hperm.nodup_iff.mp (hsub.nodup h.nodup)
  live a ha := by
    rw [hheap]
    exact h.live a (hout.subset ha)
  apart x hx := by
    rw [htimers] at hx
    exact fun hmem => h.apart x hx (hout.subset hmem)

/-- A change of a timer that is not in the set. -/
theorem Keyed.store (h : Keyed s) (object : Option TimerObject)
    (hset : ∀ x ∈ s.timers, x.address ≠ address) (hlive : address ∈ s.outside → object.isSome) :
    Keyed (s.store address object) where
  keys x hx := (getExpirationTimePoint_store_of_ne (hset x hx)).trans (h.keys x hx)
  nodup := h.nodup
  live a ha := by
    rw [store_heap]
    by_cases heq : a = address
    · subst heq
      rw [Function.update_self]
      exact hlive ha
    · rw [Function.update_of_ne heq]
      exact h.live a ha
  apart := h.apart

theorem Keyed.createTimer (h : Keyed s) (hfresh : s.heap address = none) (start : Start)
    (interval repetitions : Int) : Keyed (s.createTimer address start interval repetitions) := by
  have hset : ∀ x ∈ s.timers, x.address ≠ address := by
    intro x hx heq
    have hkey := h.keys x hx
    rw [getExpirationTimePoint, heq, hfresh] at hkey
    exact nomatch hkey
  have hout : address ∉ s.outside := by
    intro hmem
    have hlive := h.live address hmem
    rw [hfresh] at hlive
    exact nomatch hlive
  have hperm : (s.createTimer address start interval repetitions).outside.Perm
      (address :: s.outside) := List.perm_middle
  have hkeyed := h.store (some
    ⟨.new address start.timePoint interval repetitions, start, interval, 0⟩) hset fun _ => rfl
  refine ⟨hkeyed.keys, hperm.nodup_iff.mpr (List.nodup_cons.mpr ⟨hout, h.nodup⟩), ?_, ?_⟩
  · intro a ha
    cases List.mem_cons.mp (hperm.mem_iff.mp ha) with
    | inl heq =>
      subst heq
      simp [StoredTimers.createTimer]
    | inr hmem => exact hkeyed.live a hmem
  · intro x hx hmem
    cases List.mem_cons.mp (hperm.mem_iff.mp hmem) with
    | inl heq => exact hset x hx heq
    | inr hmem => exact h.apart x hx hmem

theorem mem_insertOne (h : (s.heap address).isSome) {x : Entry} :
    x ∈ (s.insertOne address).timers ↔
      x.address = address ∧ s.getExpirationTimePoint address = some x.key ∨ x ∈ s.timers := by
  obtain ⟨object, hobject⟩ := Option.isSome_iff_exists.mp h
  have hexp : s.getExpirationTimePoint address = some object.timer.expirationTimePoint := by
    rw [getExpirationTimePoint, hobject]
    rfl
  obtain ⟨key, a⟩ := x
  simp only [insertOne, hexp, Finset.mem_insert, Entry.mk.injEq, Option.some.injEq]
  constructor
  · intro hx
    cases hx with
    | inl heq => exact .inl ⟨heq.2, heq.1.symm⟩
    | inr hmem => exact .inr hmem
  · intro hx
    cases hx with
    | inl heq => exact .inl ⟨heq.2.symm, heq.1⟩
    | inr hmem => exact .inr hmem

@[simp] theorem insertOne_frame (s : StoredTimers) (address : Nat) :
    (s.insertOne address).heap = s.heap ∧
    (s.insertOne address).created = s.created ∧ (s.insertOne address).passes = s.passes ∧
    (s.insertOne address).history = s.history := by
  rw [insertOne]
  split
  · exact ⟨rfl, rfl, rfl, rfl⟩
  · exact ⟨rfl, rfl, rfl, rfl⟩

@[simp] theorem insertAll_frame (s : StoredTimers) (addresses : List Nat) :
    (s.insertAll addresses).heap = s.heap ∧
    (s.insertAll addresses).created = s.created ∧ (s.insertAll addresses).passes = s.passes ∧
    (s.insertAll addresses).history = s.history := by
  induction addresses generalizing s with
  | nil => exact ⟨rfl, rfl, rfl, rfl⟩
  | cons a addresses ih =>
    obtain ⟨hheap, hcreated, hpasses, hhistory⟩ := insertOne_frame s a
    obtain ⟨hheap', hcreated', hpasses', hhistory'⟩ := ih (s.insertOne a)
    exact ⟨hheap'.trans hheap, hcreated'.trans hcreated, hpasses'.trans hpasses,
      hhistory'.trans hhistory⟩

theorem mem_insertAll (h : ∀ a ∈ addresses, (s.heap a).isSome) {x : Entry} :
    x ∈ (s.insertAll addresses).timers ↔
      x.address ∈ addresses ∧ s.getExpirationTimePoint x.address = some x.key ∨ x ∈ s.timers := by
  induction addresses generalizing s with
  | nil => simp [insertAll]
  | cons a addresses ih =>
    have hheap := (insertOne_frame s a).1
    have hexp : ∀ b, (s.insertOne a).getExpirationTimePoint b = s.getExpirationTimePoint b := by
      intro b
      rw [getExpirationTimePoint, hheap, getExpirationTimePoint]
    have hrest : ∀ b ∈ addresses, ((s.insertOne a).heap b).isSome := by
      intro b hb
      rw [hheap]
      exact h b (List.mem_cons_of_mem _ hb)
    change x ∈ ((s.insertOne a).insertAll addresses).timers ↔ _
    rw [ih hrest, mem_insertOne (h a List.mem_cons_self), hexp, List.mem_cons]
    by_cases heq : x.address = a
    · subst heq
      tauto
    · tauto

/-- Timers that come into the set from outside. -/
theorem Keyed.of_insert (h : Keyed s) (addresses : List Nat)
    (htimers : ∀ x, x ∈ t.timers ↔
      x.address ∈ addresses ∧ s.getExpirationTimePoint x.address = some x.key ∨ x ∈ s.timers)
    (hheap : t.heap = s.heap) (hout : List.Subperm (addresses ++ t.outside) s.outside) :
    Keyed t := by
  obtain ⟨l, hperm, hsub⟩ := hout
  have hnodup := hperm.nodup_iff.mp (hsub.nodup h.nodup)
  have hsubset : ∀ a ∈ addresses ++ t.outside, a ∈ s.outside :=
    fun a ha => hsub.subset (hperm.mem_iff.mpr ha)
  refine ⟨fun x hx => ?_, (List.nodup_append.mp hnodup).2.1, fun a ha => ?_, fun x hx hmem => ?_⟩
  · rw [getExpirationTimePoint, hheap]
    cases (htimers x).mp hx with
    | inl hnew => exact hnew.2
    | inr hold => exact h.keys x hold
  · rw [hheap]
    exact h.live a (hsubset a (List.mem_append_right _ ha))
  · cases (htimers x).mp hx with
    | inl hnew => exact (List.nodup_append.mp hnodup).2.2 _ hnew.1 _ hmem rfl
    | inr hold => exact h.apart x hold (hsubset _ (List.mem_append_right _ hmem))

theorem Keyed.add (h : Keyed s) (hcreated : address ∈ s.created) : Keyed (s.add address) := by
  obtain ⟨hheap, hcreated', hpasses, _⟩ := insertOne_frame s address
  have hlive : (s.heap address).isSome := h.live address (List.mem_append_right _ hcreated)
  have hperm : ([address] ++ (s.add address).outside).Perm s.outside := by
    change (address :: ((s.insertOne address).passes.flatMap StoredPass.addresses ++
      s.created.erase address)).Perm _
    rw [hpasses]
    exact List.perm_middle.symm.trans ((List.perm_cons_erase hcreated).symm.append_left _)
  refine h.of_insert [address] (fun x => ?_) hheap hperm.subperm
  change x ∈ (s.insertOne address).timers ↔ _
  rw [mem_insertOne hlive, List.mem_singleton]
  constructor
  · intro hx
    cases hx with
    | inl heq => exact .inl ⟨heq.1, heq.1 ▸ heq.2⟩
    | inr hmem => exact .inr hmem
  · intro hx
    cases hx with
    | inl heq => exact .inl ⟨heq.1, heq.1 ▸ heq.2⟩
    | inr hmem => exact .inr hmem

theorem Keyed.endPass (h : Keyed s) (hpasses : s.passes = pass :: passes)
    (hrunning : pass.running = none) (hexpired : pass.expiredTimers = []) :
    Keyed (s.endPass pass passes) := by
  obtain ⟨hheap, hcreated, _, _⟩ :=
    insertAll_frame s pass.timersThatAreStillValid
  have hout : pass.timersThatAreStillValid ++ (s.endPass pass passes).outside = s.outside := by
    simp only [outside, StoredTimers.endPass, hcreated, hpasses, List.flatMap_cons,
      StoredPass.addresses, hrunning, hexpired, Option.toList_none, List.nil_append,
      List.append_assoc]
  have hlive : ∀ a ∈ pass.timersThatAreStillValid, (s.heap a).isSome := by
    intro a ha
    exact h.live a (hout ▸ List.mem_append_left _ ha)
  exact h.of_insert _ (fun x => mem_insertAll hlive) hheap (hout ▸ List.Subperm.refl _)

@[simp] theorem removeOne_frame (s : StoredTimers) (address : Nat) :
    (s.removeOne address).2.heap = s.heap ∧ (s.removeOne address).2.outside = s.outside ∧
      (s.removeOne address).2.passes = s.passes ∧ (s.removeOne address).2.history = s.history := by
  rw [removeOne]
  split
  · exact ⟨rfl, rfl, rfl, rfl⟩
  · exact ⟨rfl, rfl, rfl, rfl⟩

/-- What is removed is the entry of the timer, if it has one. -/
theorem Keyed.mem_removeOne (h : Keyed s) {x : Entry} :
    x ∈ (s.removeOne address).2.timers ↔ x ∈ s.timers ∧ x.address ≠ address := by
  rw [removeOne]
  split
  · rename_i hnone
    refine ⟨fun hx => ⟨hx, fun heq => ?_⟩, fun hx => hx.1⟩
    have hkey := h.keys x hx
    rw [heq, hnone] at hkey
    exact nomatch hkey
  · rename_i key hkey
    simp only [Finset.mem_erase]
    constructor
    · intro hx
      refine ⟨hx.2, fun heq => hx.1 ?_⟩
      have hkey' := h.keys x hx.2
      rw [heq, hkey, Option.some.injEq] at hkey'
      obtain ⟨key', a⟩ := x
      simp only at hkey' heq
      rw [hkey', heq]
    · intro hx
      refine ⟨fun heq => hx.2 ?_, hx.1⟩
      rw [heq]

theorem Keyed.removeOne_iff (h : Keyed s) :
    (s.removeOne address).1 = true ↔ ∃ x ∈ s.timers, x.address = address := by
  rw [removeOne]
  split
  · rename_i hnone
    refine ⟨nofun, fun hx => ?_⟩
    obtain ⟨x, hx, heq⟩ := hx
    have hkey := h.keys x hx
    rw [heq, hnone] at hkey
    exact nomatch hkey
  · rename_i key hkey
    simp only [decide_eq_true_eq]
    constructor
    · intro hx
      exact ⟨_, hx, rfl⟩
    · intro hx
      obtain ⟨x, hx, heq⟩ := hx
      have hkey' := h.keys x hx
      rw [heq, hkey, Option.some.injEq] at hkey'
      obtain ⟨key', a⟩ := x
      simp only at hkey' heq
      rw [hkey', ← heq]
      exact hx

theorem Keyed.removeOne (h : Keyed s) : Keyed (s.removeOne address).2 := by
  obtain ⟨hheap, hout, _, _⟩ := removeOne_frame s address
  refine ⟨fun x hx => ?_, hout ▸ h.nodup, fun a ha => ?_, fun x hx => ?_⟩
  · rw [getExpirationTimePoint, hheap]
    exact h.keys x (h.mem_removeOne.mp hx).1
  · rw [hheap]
    exact h.live a (hout ▸ ha)
  · rw [hout]
    exact h.apart x (h.mem_removeOne.mp hx).1

/-- Where the timer is deleted it has been in the set, and not outside. -/
theorem Keyed.cancel (h : Keyed s) : Keyed (s.cancel address) := by
  simp only [StoredTimers.cancel]
  cases hremoved : (s.removeOne address).1 with
  | false => exact h
  | true =>
    obtain ⟨x, hx, rfl⟩ := h.removeOne_iff.mp hremoved
    simp only [Bool.not_true, Bool.false_eq_true, if_false]
    split
    · exact h.removeOne
    · refine h.removeOne.store none (fun y hy => (h.mem_removeOne.mp hy).2) fun hmem => ?_
      rw [(removeOne_frame s x.address).2.1] at hmem
      exact absurd hmem (h.apart x hx)

theorem mem_moveOut_snd {timePoint : Int} {x : Entry} :
    x ∈ (s.moveOutBeforeOrAt timePoint).2.timers ↔
      x ∈ s.timers ∧ TimePoint.add timePoint 1 ≤ x.key := by
  change x ∈ Finset.filter _ _ ↔ _
  rw [Finset.mem_filter, Entry.lt_lowerBound, not_lt]

theorem mem_moveOut_fst {timePoint : Int} :
    address ∈ (s.moveOutBeforeOrAt timePoint).1 ↔
      ∃ x ∈ s.timers, x.address = address ∧ x.key < TimePoint.add timePoint 1 := by
  change address ∈ List.map _ (Finset.sort (Finset.filter _ _) _) ↔ _
  rw [List.mem_map]
  constructor
  · intro hx
    obtain ⟨x, hmem, heq⟩ := hx
    rw [Finset.mem_sort, Finset.mem_filter, Entry.lt_lowerBound] at hmem
    exact ⟨x, hmem.1, heq, hmem.2⟩
  · intro hx
    obtain ⟨x, hmem, heq, hlt⟩ := hx
    refine ⟨x, ?_, heq⟩
    rw [Finset.mem_sort, Finset.mem_filter, Entry.lt_lowerBound]
    exact ⟨hmem, hlt⟩

theorem Keyed.nodup_moveOut (h : Keyed s) (timePoint : Int) :
    (s.moveOutBeforeOrAt timePoint).1.Nodup := by
  refine List.Nodup.map_on (fun x hx y hy hxy => ?_) (Finset.sort_nodup _ _)
  rw [Finset.mem_sort, Finset.mem_filter] at hx hy
  exact h.eq_of_address hx.1 hy.1 hxy

theorem Keyed.beginPass (h : Keyed s) (timePoint : Int) : Keyed (s.beginPass timePoint) := by
  have hout : (s.beginPass timePoint).outside =
      (s.moveOutBeforeOrAt timePoint).1 ++ s.outside := by
    simp only [outside, StoredTimers.beginPass, List.flatMap_cons, StoredPass.addresses,
      Option.toList_none, List.nil_append, List.append_nil, List.append_assoc]
    rfl
  have hapart : ∀ a ∈ (s.moveOutBeforeOrAt timePoint).1, a ∉ s.outside := by
    intro a ha
    obtain ⟨x, hx, rfl, _⟩ := mem_moveOut_fst.mp ha
    exact h.apart x hx
  refine ⟨fun x hx => h.keys x (mem_moveOut_snd.mp hx).1, ?_, fun a ha => ?_, fun x hx hmem => ?_⟩
  · rw [hout, List.nodup_append]
    exact ⟨h.nodup_moveOut timePoint, h.nodup, fun a ha b hb heq => hapart a ha (heq ▸ hb)⟩
  · rw [hout] at ha
    cases List.mem_append.mp ha with
    | inl hmoved =>
      obtain ⟨x, hx, rfl, _⟩ := mem_moveOut_fst.mp hmoved
      have hkey := h.keys x hx
      rw [getExpirationTimePoint, Option.map_eq_some_iff] at hkey
      obtain ⟨object, hobject, _⟩ := hkey
      exact Option.isSome_iff_exists.mpr ⟨object, hobject⟩
    | inr hold => exact h.live a hold
  · obtain ⟨hx, hge⟩ := mem_moveOut_snd.mp hx
    rw [hout] at hmem
    cases List.mem_append.mp hmem with
    | inl hmoved =>
      obtain ⟨y, hy, hxy, hlt⟩ := mem_moveOut_fst.mp hmoved
      rw [h.eq_of_address hy hx hxy] at hlt
      omega
    | inr hold => exact h.apart x hx hold

theorem outside_of_next {rest : List Nat} (hpasses : s.passes = pass :: passes)
    (hrunning : pass.running = none) (hexpired : pass.expiredTimers = address :: rest) :
    s.outside = address :: (rest ++ pass.timersThatAreStillValid ++
      passes.flatMap StoredPass.addresses ++ s.created) := by
  rw [outside, hpasses, List.flatMap_cons, StoredPass.addresses, hrunning, hexpired]
  rfl

theorem outside_of_running (hpasses : s.passes = pass :: passes)
    (hrunning : pass.running = some address) :
    s.outside = address :: (pass.expiredTimers ++ pass.timersThatAreStillValid ++
      passes.flatMap StoredPass.addresses ++ s.created) := by
  rw [outside, hpasses, List.flatMap_cons, StoredPass.addresses, hrunning]
  rfl

/-- The call of a callback, in a pass with the same timers. -/
theorem Keyed.invoke (h : Keyed s) (haddress : address ∈ s.outside)
    (hpasses : ({ pass with running := some address } :: passes).flatMap StoredPass.addresses =
      s.passes.flatMap StoredPass.addresses) : Keyed (s.invoke pass passes address) := by
  rw [StoredTimers.invoke]
  split
  · exact h
  · refine (h.store (some _) (h.ne_of_outside haddress) fun _ => rfl).of_subperm rfl rfl ?_
    change List.Subperm (List.flatMap _ _ ++ s.created) (List.flatMap _ s.passes ++ s.created)
    rw [hpasses]

theorem Keyed.start {rest : List Nat} (h : Keyed s) (hpasses : s.passes = pass :: passes)
    (hrunning : pass.running = none) (hexpired : pass.expiredTimers = address :: rest) :
    Keyed (s.invoke { pass with expiredTimers := rest } passes address) := by
  refine h.invoke ?_ ?_
  · rw [outside_of_next hpasses hrunning hexpired]
    exact List.mem_cons_self
  · rw [hpasses, List.flatMap_cons, List.flatMap_cons]
    simp only [StoredPass.addresses, hrunning, hexpired, Option.toList_none, Option.toList_some,
      List.nil_append, List.cons_append]

theorem Keyed.afterCallback (h : Keyed s) (hpasses : s.passes = pass :: passes)
    (hrunning : pass.running = some address) : Keyed (s.afterCallback pass passes address) := by
  have hout := outside_of_running hpasses hrunning
  have haddress : address ∈ s.outside := by
    rw [hout]
    exact List.mem_cons_self
  have hset := h.ne_of_outside haddress
  rw [StoredTimers.afterCallback]
  split
  · exact h
  · rename_i object _
    split
    rename_i isStillValid timer _ _
    split
    · -- the timer leaves what is outside before it is deleted
      have hleft : Keyed { s with passes := { pass with running := none } :: passes } := by
        refine h.of_subperm rfl rfl ?_
        rw [hout]
        simp only [outside, List.flatMap_cons, StoredPass.addresses, Option.toList_none,
          List.nil_append]
        exact (List.sublist_cons_self _ _).subperm
      refine hleft.store none hset fun hmem => absurd hmem ?_
      have hnodup := h.nodup
      rw [hout] at hnodup
      simp only [outside, List.flatMap_cons, StoredPass.addresses, Option.toList_none,
        List.nil_append]
      exact (List.nodup_cons.mp hnodup).1
    · have hstored := h.store (some { object with timer }) hset fun _ => rfl
      split
      · refine hstored.of_subperm rfl rfl (List.Perm.subperm ?_)
        rw [outside_store, hout]
        simp only [outside, List.flatMap_cons, StoredPass.addresses, Option.toList_none,
          List.nil_append, List.append_assoc, store_created]
        exact (List.perm_middle.append_left _).trans List.perm_middle
      · refine hstored.invoke haddress ?_
        change _ = List.flatMap _ s.passes
        rw [hpasses, List.flatMap_cons, List.flatMap_cons, ← hrunning]

theorem Keyed.step (h : Keyed s) (hmove : Move s t) : Keyed t := by
  cases hmove with
  | create address start interval repetitions hfresh hstart =>
    exact h.createTimer hfresh start interval repetitions
  | add address hcode hcreated => exact h.add hcreated
  | cancel address hcode hlive => exact h.cancel
  | beginPass timePoint hcode hrange => exact h.beginPass timePoint
  | start pass passes address rest hpasses hrunning hexpired =>
    exact h.start hpasses hrunning hexpired
  | afterCallback pass passes address hpasses hrunning => exact h.afterCallback hpasses hrunning
  | endPass pass passes hpasses hrunning hexpired => exact h.endPass hpasses hrunning hexpired

theorem keyed_initial : Keyed initial :=
  ⟨fun _ hx => absurd hx (Finset.notMem_empty _), List.nodup_nil, nofun,
    fun _ hx => absurd hx (Finset.notMem_empty _)⟩

theorem keyed_of_reaches (h : Reaches Move initial s) : Keyed s :=
  h.invariant keyed_initial fun _ _ hkeyed hmove => hkeyed.step hmove

/-- What the container answers: `remove_one` for a timer that exists, `move_out_before_or_at` below
`INT64_MAX`. -/
structure Orderly (s : StoredTimers) : Prop where
  keys : ∀ x ∈ s.timers, s.getExpirationTimePoint x.address = some x.key
  once : ∀ x ∈ s.timers, ∀ y ∈ s.timers, x.address = y.address → x = y
  removeOne : ∀ address, (s.heap address).isSome →
    ((s.removeOne address).1 = true ↔ ∃ x ∈ s.timers, x.address = address) ∧
    ∀ x, x ∈ (s.removeOne address).2.timers ↔ x ∈ s.timers ∧ x.address ≠ address
  moveOut : ∀ timePoint, TimePoint.InRange timePoint → timePoint < 2 ^ 63 - 1 →
    (s.moveOutBeforeOrAt timePoint).1.Nodup ∧
    (∀ address, address ∈ (s.moveOutBeforeOrAt timePoint).1 ↔
      (∃ x ∈ s.timers, x.address = address) ∧
        ∃ e ∈ s.getExpirationTimePoint address, e ≤ timePoint) ∧
    (s.moveOutBeforeOrAt timePoint).1.Pairwise (fun a b =>
      ∀ e ∈ s.getExpirationTimePoint a, ∀ e' ∈ s.getExpirationTimePoint b, e ≤ e') ∧
    ∀ x, x ∈ (s.moveOutBeforeOrAt timePoint).2.timers ↔
      x ∈ s.timers ∧ x.address ∉ (s.moveOutBeforeOrAt timePoint).1

theorem Keyed.pairwise_moveOut (h : Keyed s) (timePoint : Int) :
    (s.moveOutBeforeOrAt timePoint).1.Pairwise (fun a b =>
      ∀ e ∈ s.getExpirationTimePoint a, ∀ e' ∈ s.getExpirationTimePoint b, e ≤ e') := by
  have hsorted : ((s.timers.filter (·.Lt ⟨TimePoint.add timePoint 1, 0⟩)).sort
      Entry.Le).Pairwise Entry.Le := Finset.pairwise_sort _ _
  refine List.pairwise_map.mpr (hsorted.imp_of_mem fun {x y} hx hy hle e he e' he' => ?_)
  rw [Finset.mem_sort, Finset.mem_filter] at hx hy
  rw [h.keys x hx.1, Option.mem_some_iff] at he
  rw [h.keys y hy.1, Option.mem_some_iff] at he'
  subst he he'
  exact hle.key_le

theorem Keyed.mem_moveOut (h : Keyed s) {timePoint : Int} (hrange : TimePoint.InRange timePoint)
    (hlt : timePoint < 2 ^ 63 - 1) :
    address ∈ (s.moveOutBeforeOrAt timePoint).1 ↔
      (∃ x ∈ s.timers, x.address = address) ∧
        ∃ e ∈ s.getExpirationTimePoint address, e ≤ timePoint := by
  have hadd : TimePoint.add timePoint 1 = timePoint + 1 :=
    TimePoint.add_of_inRange ⟨by have := hrange.1; omega, by omega⟩
  rw [mem_moveOut_fst, hadd]
  constructor
  · intro hx
    obtain ⟨x, hmem, rfl, hkey⟩ := hx
    exact ⟨⟨x, hmem, rfl⟩, x.key, h.keys x hmem, by omega⟩
  · intro hx
    obtain ⟨⟨x, hmem, rfl⟩, e, he, hle⟩ := hx
    rw [h.keys x hmem, Option.mem_some_iff] at he
    subst he
    exact ⟨x, hmem, rfl, by omega⟩

theorem Keyed.orderly (h : Keyed s) : Orderly s where
  keys := h.keys
  once _ hx _ hy hxy := h.eq_of_address hx hy hxy
  removeOne _ _ := ⟨h.removeOne_iff, fun _ => h.mem_removeOne⟩
  moveOut timePoint hrange hlt := by
    refine ⟨h.nodup_moveOut timePoint, fun _ => h.mem_moveOut hrange hlt,
      h.pairwise_moveOut timePoint, fun x => ?_⟩
    rw [mem_moveOut_snd, mem_moveOut_fst]
    constructor
    · intro hx
      refine ⟨hx.1, fun hmoved => ?_⟩
      obtain ⟨y, hy, hxy, hkey⟩ := hmoved
      rw [h.eq_of_address hy hx.1 hxy] at hkey
      omega
    · intro hx
      refine ⟨hx.1, ?_⟩
      by_contra hkey
      exact hx.2 ⟨x, hx.1, rfl, by omega⟩

end Steps

/-- In every state of every run the container finds exactly what it holds. -/
theorem orderly_of_reaches {s : StoredTimers} (h : Reaches Move initial s) : Orderly s :=
  (keyed_of_reaches h).orderly

/-- A timer for every three nanoseconds from the fifth on, behind a pass at the sixth. -/
theorem orderly_of_reaches_again : ∃ s : StoredTimers, Orderly s ∧ s.timers = {⟨8, 1⟩} ∧
    ((s.removeOne 1).1 = true ↔ ∃ x ∈ s.timers, x.address = 1) := by
  let added := (initial.createTimer 1 (.atTimePoint 5) 3 (-1)).add 1
  have hmoved : added.moveOutBeforeOrAt 6 = ([1], { added with timers := ∅ }) := by
    have hbefore : added.timers.filter (·.Lt ⟨TimePoint.add 6 1, 0⟩) = {⟨5, 1⟩} := by decide
    have hbehind : added.timers.filter (¬·.Lt ⟨TimePoint.add 6 1, 0⟩) = ∅ := by decide
    rw [moveOutBeforeOrAt, hbefore, hbehind, Finset.sort_singleton]
    rfl
  have hbegun : added.beginPass 6 =
      { added with timers := ∅, passes := [⟨6, none, [1], []⟩] } := by
    rw [beginPass, hmoved]
    rfl
  have hadded : Reaches Move initial added := .tail
    (.single (.create 1 (.atTimePoint 5) 3 (-1) rfl ⟨by decide, by decide⟩))
    (.add 1 trivial (by decide))
  have hbegin := hadded.tail (.beginPass 6 trivial ⟨by decide, by decide⟩)
  rw [hbegun] at hbegin
  have hstart := hbegin.tail (.start ⟨6, none, [1], []⟩ [] 1 [] rfl rfl rfl)
  have hafter := hstart.tail (.afterCallback ⟨6, some 1, [], []⟩ [] 1 rfl rfl)
  have hreaches := hafter.tail (.endPass ⟨6, none, [], [1]⟩ [] rfl rfl rfl)
  refine ⟨_, orderly_of_reaches hreaches, by decide, ?_⟩
  exact ((orderly_of_reaches hreaches).removeOne 1 rfl).1

end StoredTimers

end XubinhServer.EventLoop

import XubinhServer.EventLoop.StoredTimers

/-! When a callback is called, against the time it was asked for in exact numbers. -/
namespace XubinhServer

def TimeInterval.FOREVER : Int := 0x7fffffffffffffff

theorem TimePoint.add_bmod (t i : Int) :
    TimePoint.add (t.bmod (2 ^ 64)) i = (t + i).bmod (2 ^ 64) := Int.bmod_add_bmod

theorem TimePoint.inRange_bmod (t : Int) : TimePoint.InRange (t.bmod (2 ^ 64)) := by
  have hlow := @Int.le_bmod t (2 ^ 64) (by decide)
  have hhigh := @Int.bmod_lt t (2 ^ 64) (by decide)
  exact ⟨by omega, by omega⟩

namespace EventLoop

open Transition

/-- The time that the call was asked for. -/
def Invocation.scheduled (x : Invocation) : Int :=
  x.start.exact + (x.index - 1) * x.repetitionTimeInterval

/-- A call that `run_after_time_interval` was asked for. -/
def Invocation.AfterTimeInterval (x : Invocation) : Prop :=
  ∃ clock timeInterval, x.start = .afterTimeInterval clock timeInterval ∧
    (0 ≤ timeInterval ∧ timeInterval ≤ TimeInterval.FOREVER) ∧
    0 ≤ x.repetitionTimeInterval ∧ x.repetitionTimeInterval ≤ TimeInterval.FOREVER

namespace Start

variable {start : Start}

theorem timePoint_eq (h : start.InRange) : start.timePoint = start.exact.bmod (2 ^ 64) := by
  cases start with
  | atTimePoint timePoint => exact (TimePoint.bmod_of_inRange h).symm
  | afterTimeInterval clock timeInterval => rfl

end Start

/-- The expiration of a timer that has expired `completed` times. -/
structure TimerObject.OnSchedule (object : TimerObject) (completed : Int) : Prop where
  start : object.start.InRange
  interval : object.timer.repetitionTimeInterval = max 0 object.repetitionTimeInterval
  expiration : object.timer.expirationTimePoint =
    (object.start.exact + completed * max 0 object.repetitionTimeInterval).bmod (2 ^ 64)

/-- The expiration after the next one. -/
theorem TimerObject.OnSchedule.expireOnce {object : TimerObject} {completed : Int}
    (h : object.OnSchedule completed) {timer : Timer}
    (hexpire : object.timer.expireOnce id () = (true, timer, ())) (invocations : Nat) :
    TimerObject.OnSchedule { object with timer, invocations } (completed + 1) := by
  rw [Timer.expireOnce] at hexpire
  split at hexpire
  · cases hexpire
  · simp only [Prod.mk.injEq, and_true, true_and] at hexpire
    subst hexpire
    refine ⟨h.start, h.interval, ?_⟩
    change TimePoint.add object.timer.expirationTimePoint object.timer.repetitionTimeInterval = _
    rw [h.expiration, h.interval, TimePoint.add_bmod, add_mul, one_mul, add_assoc]

/-- A call in a pass that the expiration was not after. -/
structure Invocation.Due (x : Invocation) : Prop where
  index : 1 ≤ x.index
  start : x.start.InRange
  timePoint : TimePoint.InRange x.timePoint
  expiration : (x.start.exact + (x.index - 1) * max 0 x.repetitionTimeInterval).bmod (2 ^ 64) ≤
    x.timePoint

namespace StoredTimers

/-- The timers whose callback is being called. -/
def running (s : StoredTimers) : List Nat := s.passes.filterMap StoredPass.running

/-- The callback that is being called is behind no expiration yet. -/
def completed (s : StoredTimers) (address : Nat) (object : TimerObject) : Int :=
  object.invocations - if address ∈ s.running then 1 else 0

structure Punctual (s : StoredTimers) : Prop where
  objects : ∀ a object, s.heap a = some object → object.OnSchedule (s.completed a object)
  passes : ∀ pass ∈ s.passes, TimePoint.InRange pass.timePoint
  expired : ∀ pass ∈ s.passes, ∀ a ∈ pass.expiredTimers, ∀ e ∈ s.getExpirationTimePoint a,
    e ≤ pass.timePoint
  history : ∀ x ∈ s.history, x.Due

section Steps

variable {s t : StoredTimers} {address : Nat} {pass : StoredPass} {passes : List StoredPass}
  {object : TimerObject}

/-- A step that changes no timer but the one at `address`, which it does not leave in a pass to
expire. -/
theorem Punctual.of_object (h : Punctual s) (hheap : ∀ a ≠ address, t.heap a = s.heap a)
    (hrunning : ∀ a ≠ address, (a ∈ t.running ↔ a ∈ s.running))
    (hobject : ∀ object, t.heap address = some object →
      object.OnSchedule (t.completed address object))
    (hpasses : ∀ pass ∈ t.passes, TimePoint.InRange pass.timePoint ∧
      ∀ a ∈ pass.expiredTimers, a ≠ address ∧
        ∀ e ∈ s.getExpirationTimePoint a, e ≤ pass.timePoint)
    (hhistory : ∀ x ∈ t.history, x ∈ s.history ∨ x.Due) : Punctual t where
  objects a object hobject' := by
    by_cases heq : a = address
    · subst heq
      exact hobject object hobject'
    · have hcompleted : t.completed a object = s.completed a object := by
        simp only [completed, hrunning a heq]
      rw [hcompleted]
      exact h.objects a object (hheap a heq ▸ hobject')
  passes pass hpass := (hpasses pass hpass).1
  expired pass hpass a ha e he := by
    obtain ⟨hne, hle⟩ := (hpasses pass hpass).2 a ha
    rw [getExpirationTimePoint, hheap a hne] at he
    exact hle e he
  history x hx := by
    cases hhistory x hx with
    | inl hold => exact h.history x hold
    | inr hnew => exact hnew

/-- A step that changes no timer. -/
theorem Punctual.of_heap (h : Punctual s) (hheap : t.heap = s.heap)
    (hrunning : t.running = s.running)
    (hpasses : ∀ pass ∈ t.passes, pass ∈ s.passes ∨ (TimePoint.InRange pass.timePoint ∧
      ∀ a ∈ pass.expiredTimers, ∀ e ∈ s.getExpirationTimePoint a, e ≤ pass.timePoint))
    (hhistory : t.history = s.history) : Punctual t where
  objects a object hobject := by
    rw [completed, hrunning]
    exact h.objects a object (hheap ▸ hobject)
  passes pass hpass := by
    cases hpasses pass hpass with
    | inl hold => exact h.passes pass hold
    | inr hnew => exact hnew.1
  expired pass hpass a ha e he := by
    rw [getExpirationTimePoint, hheap] at he
    cases hpasses pass hpass with
    | inl hold => exact h.expired pass hold a ha e he
    | inr hnew => exact hnew.2 a ha e he
  history x hx := h.history x (hhistory ▸ hx)

theorem mem_outside_of_running (h : address ∈ s.running) : address ∈ s.outside := by
  obtain ⟨pass, hpass, hrunning⟩ := List.mem_filterMap.mp h
  refine List.mem_append_left _ (List.mem_flatMap.mpr ⟨pass, hpass, ?_⟩)
  rw [StoredPass.addresses, hrunning]
  simp

theorem mem_outside_of_expired (hpass : pass ∈ s.passes) (h : address ∈ pass.expiredTimers) :
    address ∈ s.outside := by
  refine List.mem_append_left _ (List.mem_flatMap.mpr ⟨pass, hpass, ?_⟩)
  rw [StoredPass.addresses]
  simp [h]

/-- A step that puts a timer at a free address, or takes one away, that no pass has. -/
theorem Punctual.of_store (h : Punctual s) (address : Nat) (hout : address ∉ s.outside)
    (hheap : ∀ a ≠ address, t.heap a = s.heap a) (hpasses : t.passes = s.passes)
    (hobject : ∀ object, t.heap address = some object → object.OnSchedule object.invocations)
    (hhistory : t.history = s.history) : Punctual t := by
  have hrunning : t.running = s.running := by rw [running, hpasses, running]
  refine h.of_object hheap (fun _ _ => by rw [hrunning]) (fun object hobject' => ?_) ?_
    (fun x hx => .inl (hhistory ▸ hx))
  · rw [completed, hrunning, if_neg fun hmem => hout (mem_outside_of_running hmem), sub_zero]
    exact hobject object hobject'
  · rw [hpasses]
    exact fun pass hpass => ⟨h.passes pass hpass, fun a ha =>
      ⟨fun heq => hout (heq ▸ mem_outside_of_expired hpass ha), h.expired pass hpass a ha⟩⟩

theorem Punctual.createTimer (h : Punctual s) (hkeyed : Keyed s) (hfresh : s.heap address = none)
    {start : Start} (hstart : start.InRange) (interval repetitions : Int) :
    Punctual (s.createTimer address start interval repetitions) := by
  have hout : address ∉ s.outside := by
    intro hmem
    have hlive := hkeyed.live address hmem
    rw [hfresh] at hlive
    exact nomatch hlive
  refine h.of_store address hout (fun a ha => Function.update_of_ne ha _ _) rfl
    (fun object hobject => ?_) rfl
  simp only [StoredTimers.createTimer, store_heap, Function.update_self,
    Option.some.injEq] at hobject
  subst hobject
  refine ⟨hstart, rfl, ?_⟩
  simp only [Timer.new, Nat.cast_zero, zero_mul, add_zero]
  exact Start.timePoint_eq hstart

theorem Punctual.cancel (h : Punctual s) (hkeyed : Keyed s) : Punctual (s.cancel address) := by
  obtain ⟨hheap, _, hpasses, hhistory⟩ := removeOne_frame s address
  simp only [StoredTimers.cancel]
  cases hremoved : (s.removeOne address).1 with
  | false => exact h
  | true =>
    obtain ⟨x, hx, rfl⟩ := hkeyed.removeOne_iff.mp hremoved
    simp only [Bool.not_true, Bool.false_eq_true, if_false]
    split
    · exact h.of_heap hheap (by rw [running, hpasses, running])
        (fun pass hpass => .inl (hpasses ▸ hpass)) hhistory
    · refine h.of_store x.address (hkeyed.apart x hx) (fun a ha => ?_) hpasses
        (fun object hobject => ?_) hhistory
      · rw [store_heap, Function.update_of_ne ha, hheap]
      · rw [store_heap, Function.update_self] at hobject
        cases hobject

theorem Punctual.add (h : Punctual s) : Punctual (s.add address) := by
  obtain ⟨hheap, _, hpasses, hhistory⟩ := insertOne_frame s address
  refine h.of_heap hheap ?_ (fun pass hpass => .inl (hpasses ▸ hpass)) hhistory
  change (s.insertOne address).passes.filterMap _ = _
  rw [hpasses, running]

theorem Punctual.endPass (h : Punctual s) (hpasses : s.passes = pass :: passes)
    (hrunning : pass.running = none) : Punctual (s.endPass pass passes) := by
  obtain ⟨hheap, _, _, hhistory⟩ := insertAll_frame s pass.timersThatAreStillValid
  refine h.of_heap hheap ?_ (fun p hp => .inl ?_) hhistory
  · rw [running, running, hpasses, List.filterMap_cons_none hrunning]
    rfl
  · rw [hpasses]
    exact List.mem_cons_of_mem _ hp

/-- A key is a 64-bit number, so that `+ 1` may wrap. -/
theorem le_of_lt_add_one {key timePoint : Int} (hkey : TimePoint.InRange key)
    (hrange : TimePoint.InRange timePoint) (h : key < TimePoint.add timePoint 1) :
    key ≤ timePoint := by
  obtain ⟨_, hkeyHigh⟩ := hkey
  obtain ⟨hlow, hhigh⟩ := hrange
  by_cases hmax : timePoint = 2 ^ 63 - 1
  · omega
  · rw [TimePoint.add_of_inRange ⟨by omega, by omega⟩] at h
    omega

theorem Punctual.beginPass (h : Punctual s) (hkeyed : Keyed s) {timePoint : Int}
    (hrange : TimePoint.InRange timePoint) : Punctual (s.beginPass timePoint) := by
  refine h.of_heap rfl rfl (fun pass hpass => ?_) rfl
  cases List.mem_cons.mp hpass with
  | inr hold => exact .inl hold
  | inl hnew =>
    subst hnew
    refine .inr ⟨hrange, fun a ha e he => ?_⟩
    obtain ⟨x, hx, rfl, hlt⟩ := mem_moveOut_fst.mp ha
    have hkey := hkeyed.keys x hx
    rw [hkey, Option.mem_some_iff] at he
    subst he
    obtain ⟨object, hobject, hexpiration⟩ := Option.map_eq_some_iff.mp hkey
    have honSchedule := (h.objects x.address object hobject).expiration
    rw [hexpiration] at honSchedule
    exact le_of_lt_add_one (honSchedule ▸ TimePoint.inRange_bmod _) hrange hlt

section InnermostPass

variable {next : StoredPass} {valid : List Nat}

/-- The timer whose callback is about to be called, being called or just called is in no other
place. -/
theorem Keyed.notMem_of_outside (hkeyed : Keyed s) (next : StoredPass)
    (hout : s.outside = address ::
      (next.expiredTimers ++ valid ++ passes.flatMap StoredPass.addresses ++ s.created)) :
    address ∉ next.expiredTimers ∧ address ∉ passes.filterMap StoredPass.running ∧
      ∀ p ∈ passes, address ∉ p.expiredTimers := by
  have hnodup := hkeyed.nodup
  rw [hout] at hnodup
  have hrest := (List.nodup_cons.mp hnodup).1
  simp only [List.mem_append, not_or] at hrest
  obtain ⟨⟨⟨hexpired, _⟩, hpasses⟩, _⟩ := hrest
  refine ⟨hexpired, fun hmem => hpasses ?_, fun p hp hmem => hpasses ?_⟩
  · obtain ⟨p, hp, hrunning⟩ := List.mem_filterMap.mp hmem
    refine List.mem_flatMap.mpr ⟨p, hp, ?_⟩
    rw [StoredPass.addresses, hrunning]
    simp
  · refine List.mem_flatMap.mpr ⟨p, hp, ?_⟩
    simp [StoredPass.addresses, hmem]

theorem completed_of_pass (hs : s.passes = next :: passes)
    (hmem : address ∉ passes.filterMap StoredPass.running)
    (hnext : next.running = none ∨ next.running = some address) :
    s.completed address object = object.invocations - if next.running = none then 0 else 1 := by
  cases hnext with
  | inl hnone =>
    rw [completed, running, hs, List.filterMap_cons_none hnone, if_neg hmem, if_pos hnone]
  | inr hsome =>
    rw [completed, running, hs, List.filterMap_cons_some hsome, if_pos List.mem_cons_self,
      if_neg (by rw [hsome]; exact Option.some_ne_none _)]

theorem mem_running_of_pass (hs : s.passes = next :: passes) {a : Nat} (ha : a ≠ address)
    (hnext : next.running = none ∨ next.running = some address) :
    a ∈ s.running ↔ a ∈ passes.filterMap StoredPass.running := by
  cases hnext with
  | inl hnone => rw [running, hs, List.filterMap_cons_none hnone]
  | inr hsome =>
    rw [running, hs, List.filterMap_cons_some hsome, List.mem_cons]
    exact or_iff_right ha

/-- A step of the innermost pass, which is at the timer at `address`. -/
theorem Punctual.of_pass (h : Punctual s) (hkeyed : Keyed s) (next : StoredPass)
    (hs : s.passes = pass :: passes)
    (hout : s.outside = address ::
      (next.expiredTimers ++ valid ++ passes.flatMap StoredPass.addresses ++ s.created))
    (hpass : pass.running = none ∨ pass.running = some address)
    (hnext : next.running = none ∨ next.running = some address)
    (htime : next.timePoint = pass.timePoint)
    (hsubset : next.expiredTimers ⊆ pass.expiredTimers)
    (ht : t.passes = next :: passes) (hheap : ∀ a ≠ address, t.heap a = s.heap a)
    (hobject : ∀ object, t.heap address = some object →
      object.OnSchedule (object.invocations - if next.running = none then 0 else 1))
    (hhistory : ∀ x ∈ t.history, x ∈ s.history ∨ x.Due) : Punctual t := by
  obtain ⟨hexpired, hrunning, hothers⟩ := hkeyed.notMem_of_outside _ hout
  have hmem : pass ∈ s.passes := hs ▸ List.mem_cons_self
  refine h.of_object hheap (fun a ha => ?_) (fun object hobject' => ?_) (fun p hp => ?_) hhistory
  · rw [mem_running_of_pass ht ha hnext, mem_running_of_pass hs ha hpass]
  · rw [completed_of_pass ht hrunning hnext]
    exact hobject object hobject'
  · rw [ht, List.mem_cons] at hp
    cases hp with
    | inl heq =>
      subst heq
      rw [htime]
      exact ⟨h.passes pass hmem, fun a ha =>
        ⟨fun heq => hexpired (heq ▸ ha), h.expired pass hmem a (hsubset ha)⟩⟩
    | inr hp =>
      have hp' : p ∈ s.passes := hs ▸ List.mem_cons_of_mem _ hp
      exact ⟨h.passes p hp', fun a ha =>
        ⟨fun heq => hothers p hp (heq ▸ ha), h.expired p hp' a ha⟩⟩

theorem Punctual.start {rest : List Nat} (h : Punctual s) (hkeyed : Keyed s)
    (hs : s.passes = pass :: passes) (hrunning : pass.running = none)
    (hexpired : pass.expiredTimers = address :: rest) :
    Punctual (s.invoke { pass with expiredTimers := rest } passes address) := by
  have hout := outside_of_next hs hrunning hexpired
  have hpass : pass ∈ s.passes := hs ▸ List.mem_cons_self
  rw [StoredTimers.invoke]
  split
  · exact h
  · rename_i object hobject
    have honSchedule := h.objects address object hobject
    have hothers := hkeyed.notMem_of_outside { pass with expiredTimers := rest } hout
    rw [completed_of_pass hs hothers.2.1 (.inl hrunning), if_pos hrunning,
      sub_zero] at honSchedule
    refine h.of_pass hkeyed { pass with running := some address, expiredTimers := rest } hs hout
      (.inl hrunning) (.inr rfl) rfl ?_ rfl
      (fun a ha => ?_) (fun object' hobject' => ?_) (fun x hx => ?_)
    · rw [hexpired]
      exact List.subset_cons_self _ _
    · rw [store_heap, Function.update_of_ne ha]
    · rw [store_heap, Function.update_self, Option.some.injEq] at hobject'
      subst hobject'
      refine ⟨honSchedule.start, honSchedule.interval, ?_⟩
      rw [honSchedule.expiration]
      simp
    · cases List.mem_append.mp hx with
      | inl hold => exact .inl hold
      | inr hnew =>
        rw [List.mem_singleton] at hnew
        subst hnew
        refine .inr ⟨Nat.le_add_left _ _, honSchedule.start, h.passes pass hpass, ?_⟩
        have hle := h.expired pass hpass address (hexpired ▸ List.mem_cons_self)
          object.timer.expirationTimePoint (by rw [getExpirationTimePoint, hobject]; rfl)
        rw [honSchedule.expiration] at hle
        simpa using hle

theorem Punctual.afterCallback (h : Punctual s) (hkeyed : Keyed s)
    (hs : s.passes = pass :: passes) (hrunning : pass.running = some address) :
    Punctual (s.afterCallback pass passes address) := by
  have hout := outside_of_running hs hrunning
  have hpass : pass ∈ s.passes := hs ▸ List.mem_cons_self
  rw [StoredTimers.afterCallback]
  split
  · exact h
  · rename_i object hobject
    have honSchedule := h.objects address object hobject
    rw [completed_of_pass hs (hkeyed.notMem_of_outside _ hout).2.1 (.inr hrunning),
      if_neg (by rw [hrunning]; exact Option.some_ne_none _)] at honSchedule
    obtain ⟨⟨isStillValid, timer, ⟨⟩⟩, hexpire⟩ :
        ∃ result, object.timer.expireOnce id () = result := ⟨_, rfl⟩
    rw [hexpire]
    cases isStillValid with
    | false =>
      refine h.of_pass hkeyed { pass with running := none } hs hout (.inr hrunning)
        (.inl rfl) rfl (List.Subset.refl _) rfl (fun a ha => ?_) (fun object' hobject' => ?_)
        (fun x hx => .inl hx)
      · exact Function.update_of_ne ha _ _
      · simp at hobject'
    | true =>
      have hnext := honSchedule.expireOnce hexpire
      simp only [sub_add_cancel] at hnext
      simp only [Bool.not_true, Bool.false_eq_true, if_false]
      split
      · refine h.of_pass hkeyed { pass with
          running := none
          timersThatAreStillValid := pass.timersThatAreStillValid ++ [address] } hs hout
          (.inr hrunning) (.inl rfl) rfl (List.Subset.refl _) rfl (fun a ha => ?_)
          (fun object' hobject' => ?_) (fun x hx => .inl hx)
        · exact Function.update_of_ne ha _ _
        · simp only [store_heap, Function.update_self, Option.some.injEq] at hobject'
          subst hobject'
          rw [if_pos rfl, sub_zero]
          exact hnext _
      · rename_i hnotLater
        have hstored : (s.store address (some { object with timer })).heap address =
            some { object with timer } := by
          rw [store_heap, Function.update_self]
        rw [StoredTimers.invoke, hstored]
        refine h.of_pass hkeyed { pass with running := some address } hs hout
          (.inr hrunning) (.inr rfl) rfl (List.Subset.refl _) rfl (fun a ha => ?_)
          (fun object' hobject' => ?_) (fun x hx => ?_)
        · exact (Function.update_of_ne ha _ _).trans (Function.update_of_ne ha _ _)
        · simp only [store_heap, Function.update_self, Option.some.injEq] at hobject'
          subst hobject'
          rw [if_neg (Option.some_ne_none _)]
          push_cast
          rw [add_sub_cancel_right]
          exact hnext _
        · cases List.mem_append.mp hx with
          | inl hold => exact .inl hold
          | inr hnew =>
            rw [List.mem_singleton] at hnew
            subst hnew
            refine .inr ⟨Nat.le_add_left _ _, honSchedule.start, h.passes pass hpass, ?_⟩
            have hexpiration : timer.expirationTimePoint = (object.start.exact +
                object.invocations * max 0 object.repetitionTimeInterval).bmod (2 ^ 64) :=
              (hnext object.invocations).expiration
            simp only [Nat.cast_add, Nat.cast_one, add_sub_cancel_right]
            rw [← hexpiration]
            exact not_lt.mp hnotLater

end InnermostPass

theorem Punctual.step (h : Punctual s) (hkeyed : Keyed s) (hmove : Move s t) : Punctual t := by
  cases hmove with
  | create address start interval repetitions hfresh hstart =>
    exact h.createTimer hkeyed hfresh hstart interval repetitions
  | add address hcode hcreated => exact h.add
  | cancel address hcode hlive => exact h.cancel hkeyed
  | beginPass timePoint hcode hrange => exact h.beginPass hkeyed hrange
  | start pass passes address rest hpasses hrunning hexpired =>
    exact h.start hkeyed hpasses hrunning hexpired
  | afterCallback pass passes address hpasses hrunning =>
    exact h.afterCallback hkeyed hpasses hrunning
  | endPass pass passes hpasses hrunning hexpired => exact h.endPass hpasses hrunning

theorem punctual_of_reaches (h : Reaches Move initial s) : Punctual s := by
  have hboth : Keyed s ∧ Punctual s :=
    Reaches.invariant (I := fun s => Keyed s ∧ Punctual s) h
      ⟨keyed_initial, nofun, nofun, nofun, nofun⟩ fun _ _ hpair hmove =>
        ⟨hpair.1.step hmove, hpair.2.step hpair.1 hmove⟩
  exact hboth.2

end Steps

/-- No call is early whose time fits in 64 bits, and every call is early whose time does not. -/
theorem scheduled_le_iff {s : StoredTimers} (h : Reaches Move initial s) {x : Invocation}
    (hx : x ∈ s.history) (hafter : x.AfterTimeInterval) :
    x.scheduled ≤ x.timePoint ↔ x.scheduled < 2 ^ 63 := by
  obtain ⟨clock, timeInterval, hstart, ⟨hinterval, _⟩, hrepetition, _⟩ := hafter
  have hdue := (punctual_of_reaches h).history x hx
  have hindex := hdue.index
  have hrange := hdue.start
  have htimePoint := hdue.timePoint.2
  rw [hstart] at hrange
  have hclock := hrange.1.1
  have hrounds : 0 ≤ (x.index - 1) * x.repetitionTimeInterval :=
    Int.mul_nonneg (by omega) hrepetition
  have hlow : -2 ^ 63 ≤ x.scheduled := by
    rw [Invocation.scheduled, hstart]
    change _ ≤ clock + timeInterval + _
    omega
  constructor
  · intro hle
    omega
  · intro hfits
    have hexpiration := hdue.expiration
    rw [max_eq_right hrepetition] at hexpiration
    change x.scheduled.bmod (2 ^ 64) ≤ _ at hexpiration
    rwa [TimePoint.bmod_of_inRange ⟨hlow, hfits⟩] at hexpiration

/-- A timer that is asked for at the first nanosecond, for then and for every `FOREVER` later, in a
pass at that nanosecond. -/
theorem reaches_forever : ∃ s : StoredTimers, Reaches Move initial s ∧
    ∀ k ∈ [1, 2], ⟨.afterTimeInterval 1 0, TimeInterval.FOREVER, k, 1⟩ ∈ s.history := by
  let added := (initial.createTimer 1 (.afterTimeInterval 1 0) TimeInterval.FOREVER (-1)).add 1
  have hmoved : added.moveOutBeforeOrAt 1 = ([1], { added with timers := ∅ }) := by
    have hbefore : added.timers.filter (·.Lt ⟨TimePoint.add 1 1, 0⟩) = {⟨1, 1⟩} := by decide
    have hbehind : added.timers.filter (¬·.Lt ⟨TimePoint.add 1 1, 0⟩) = ∅ := by decide
    rw [moveOutBeforeOrAt, hbefore, hbehind, Finset.sort_singleton]
    rfl
  have hbegun : added.beginPass 1 =
      { added with timers := ∅, passes := [⟨1, none, [1], []⟩] } := by
    rw [beginPass, hmoved]
    rfl
  have hadded : Reaches Move initial added := .tail
    (.single (.create 1 (.afterTimeInterval 1 0) TimeInterval.FOREVER (-1) rfl
      ⟨⟨by decide, by decide⟩, by decide, by decide⟩))
    (.add 1 trivial (by decide))
  have hbegin := hadded.tail (.beginPass 1 trivial ⟨by decide, by decide⟩)
  rw [hbegun] at hbegin
  have hstart := hbegin.tail (.start ⟨1, none, [1], []⟩ [] 1 [] rfl rfl rfl)
  have hafter := hstart.tail (.afterCallback ⟨1, some 1, [], []⟩ [] 1 rfl rfl)
  exact ⟨_, hafter, by decide⟩

/-- Its first call is not early. -/
theorem scheduled_le_iff_first : ∃ s : StoredTimers, ∃ x ∈ s.history,
    x.index = 1 ∧ (x.scheduled ≤ x.timePoint ↔ x.scheduled < 2 ^ 63) := by
  obtain ⟨s, hreaches, hhistory⟩ := reaches_forever
  refine ⟨s, _, hhistory 1 (by decide), rfl, scheduled_le_iff hreaches (hhistory 1 (by decide)) ?_⟩
  exact ⟨1, 0, rfl, ⟨by decide, by decide⟩, by decide, by decide⟩

/-- Its second call is. -/
theorem not_scheduled_le : ¬∀ s, Reaches Move initial s → ∀ x ∈ s.history, x.AfterTimeInterval →
    x.scheduled ≤ x.timePoint := by
  intro hnever
  obtain ⟨s, hreaches, hhistory⟩ := reaches_forever
  have hle := hnever s hreaches _ (hhistory 2 (by decide))
    ⟨1, 0, rfl, ⟨by decide, by decide⟩, by decide, by decide⟩
  exact absurd hle (by decide)

end StoredTimers

end EventLoop

end XubinhServer

import XubinhServer.EventLoop.Turns

/-! The alarm of an event loop is never later than its timers allow: whenever the loop is
about to block, the timerfd is set for a time at which no pending timer is overdue by more
than the threshold. -/
namespace XubinhServer.EventLoop

open Transition

namespace Timers

/-- The timerfd stands for `_next_earliest_expiration_time`. -/
def Alarmed (s : Timers) : Prop :=
  s.timerfd = .armed s.nextEarliestExpirationTime ∨
    s.timerfd = .fired s.nextEarliestExpirationTime

/-- The alarm is early enough for all timers; `seen` tells at which alarms the loop has already
been woken up. -/
structure Guarded (θ : Int) (seen : Int → Prop) (s : Timers) : Prop where
  empty : s.timerContainer.timers = [] → s.nextEarliestExpirationTime = TimePoint.FOREVER
  early : ∀ τ ∈ s.timerContainer.timers,
    s.nextEarliestExpirationTime ≤ τ.expirationTimePoint + θ
  alarm : s.timerContainer.timers ≠ [] → s.Alarmed ∨ seen s.nextEarliestExpirationTime

variable {θ : Int} {seen seen' : Int → Prop} {s : Timers} {c : TimerContainer}

theorem Guarded.mono (h : Guarded θ seen s) (hseen : ∀ t, seen t → seen' t) :
    Guarded θ seen' s where
  empty := h.empty
  early := h.early
  alarm hne := (h.alarm hne).imp_right (hseen _)

/-- An alarm set at the earliest expiration. -/
theorem guarded_setAlarm (hθ : 0 ≤ θ) (hne : s.timerContainer.timers ≠ [])
    (hpos : ∀ τ ∈ s.timerContainer.timers, 0 < τ.expirationTimePoint) :
    Guarded θ seen
      (s.setAlarmAtTimePoint s.timerContainer.getEarliestExpirationTimePoint) where
  empty hnil := absurd hnil hne
  early τ hτ := by
    have hle : s.timerContainer.getEarliestExpirationTimePoint ≤ τ.expirationTimePoint :=
      TimerContainer.earliest_le hτ
    rw [setAlarmAtTimePoint_nextEarliestExpirationTime]
    omega
  alarm _ := by
    obtain ⟨τ, hτ, hearliest⟩ := TimerContainer.exists_earliest hne
    have hzero : s.timerContainer.getEarliestExpirationTimePoint ≠ 0 := by
      have := hpos τ hτ
      omega
    left
    left
    simp [setAlarmAtTimePoint, Timerfd.setAlarmAtTimePoint, hzero]

/-- After insertions the alarm is advanced, or it was early enough. -/
theorem Guarded.advance (h : Guarded θ seen s) (hθ : 0 ≤ θ) (hne : c.timers ≠ [])
    (hrange : ∀ τ ∈ c.timers, 0 < τ.expirationTimePoint ∧
      τ.expirationTimePoint < TimePoint.FOREVER - θ) :
    Guarded θ seen (advanceAlarm θ { s with timerContainer := c }) := by
  simp only [advanceAlarm]
  split
  · apply guarded_setAlarm hθ hne
    intro τ hτ
    exact (hrange τ hτ).1
  · rename_i hlate
    refine ⟨fun hnil => absurd hnil hne, fun τ hτ => ?_, fun _ => ?_⟩
    · have hle : c.getEarliestExpirationTimePoint ≤ τ.expirationTimePoint :=
        TimerContainer.earliest_le hτ
      simp only
      omega
    · apply h.alarm
      intro hnil
      have hforever := h.empty hnil
      obtain ⟨τ, hτ, hearliest⟩ := TimerContainer.exists_earliest hne
      have hlt := (hrange τ hτ).2
      omega

/-- After removals the alarm is delayed to the earliest timer that is left, unless it is not
due before. -/
theorem Guarded.delay (h : Guarded θ seen s) (hθ : 0 ≤ θ)
    (hsub : ∀ τ ∈ c.timers, τ ∈ s.timerContainer.timers)
    (hpos : ∀ τ ∈ c.timers, 0 < τ.expirationTimePoint)
    (hseen : ∀ t, seen t → c.timers ≠ [] → c.getEarliestExpirationTimePoint ≤ t → seen' t) :
    Guarded θ seen' (delayAlarm { s with timerContainer := c }) := by
  simp only [delayAlarm]
  split
  · rename_i hnil
    refine ⟨fun _ => rfl, fun τ hτ => ?_, fun hne => absurd hnil hne⟩
    simp [hnil] at hτ
  · rename_i hne
    split
    · exact guarded_setAlarm hθ hne hpos
    · rename_i hlate
      refine ⟨fun hnil => absurd hnil hne, fun τ hτ => h.early τ (hsub τ hτ), fun _ => ?_⟩
      have hold : s.timerContainer.timers ≠ [] := by
        obtain ⟨τ, hτ, _⟩ := TimerContainer.exists_earliest hne
        exact List.ne_nil_of_mem (hsub τ hτ)
      cases h.alarm hold with
      | inl halarmed => exact .inl halarmed
      | inr hold =>
        right
        apply hseen _ hold hne
        omega

theorem Guarded.addATimer {timer : Timer} (h : Guarded θ seen s) (hθ : 0 ≤ θ)
    (hrange : ∀ τ ∈ (s.addATimerAndUpdateAlarm θ timer).timerContainer.timers,
      0 < τ.expirationTimePoint ∧ τ.expirationTimePoint < TimePoint.FOREVER - θ) :
    Guarded θ seen (s.addATimerAndUpdateAlarm θ timer) := by
  simp only [addATimerAndUpdateAlarm, timerContainer_advanceAlarm] at hrange
  apply h.advance hθ _ hrange
  exact List.ne_nil_of_mem (TimerContainer.mem_insertOne.mpr (.inl rfl))

theorem Guarded.insertValidTimers {timers : List Timer} (h : Guarded θ seen s) (hθ : 0 ≤ θ)
    (hrange : ∀ τ ∈ (s.insertValidTimers θ timers).timerContainer.timers,
      0 < τ.expirationTimePoint ∧ τ.expirationTimePoint < TimePoint.FOREVER - θ) :
    Guarded θ seen (s.insertValidTimers θ timers) := by
  rw [Timers.insertValidTimers] at hrange ⊢
  split
  · exact h
  · rename_i hne
    rw [if_neg hne, timerContainer_advanceAlarm] at hrange
    obtain ⟨τ, hτ⟩ := List.exists_mem_of_ne_nil timers hne
    apply h.advance hθ _ hrange
    exact List.ne_nil_of_mem (TimerContainer.mem_insertAll.mpr (.inl hτ))

theorem Guarded.cancelATimer {address : Nat} (h : Guarded θ seen s) (hθ : 0 ≤ θ)
    (hpos : ∀ τ ∈ s.timerContainer.timers, 0 < τ.expirationTimePoint) :
    Guarded θ seen (s.cancelATimerAndUpdateAlarm address) := by
  rw [cancelATimerAndUpdateAlarm]
  cases hremoved : s.timerContainer.removeOne address with
  | none => exact h
  | some c =>
    have hsub : ∀ τ ∈ c.timers, τ ∈ s.timerContainer.timers :=
      fun τ hτ => ((TimerContainer.mem_of_removeOne hremoved).mp hτ).1
    exact h.delay hθ hsub (fun τ hτ => hpos τ (hsub τ hτ)) fun _ hs _ _ => hs

/-- A pass at `timePoint` that follows an alarm before that time renews it. -/
theorem Guarded.moveOutExpiredTimers {timePoint : Int} (h : Guarded θ seen s) (hθ : 0 ≤ θ)
    (hpos : ∀ τ ∈ s.timerContainer.timers, 0 < τ.expirationTimePoint)
    (hseen : ∀ t, seen t → timePoint < t → seen' t) :
    Guarded θ seen' (s.moveOutExpiredTimers timePoint).2 := by
  apply h.delay hθ
  · exact fun τ hτ => (TimerContainer.mem_moveOut_snd hτ).1
  · exact fun τ hτ => hpos τ (TimerContainer.mem_moveOut_snd hτ).1
  · intro t ht hne hle
    obtain ⟨τ, hτ, hearliest⟩ := TimerContainer.exists_earliest hne
    have hlt := (TimerContainer.mem_moveOut_snd hτ).2
    exact hseen t ht (by omega)

/-- The operations of the loop set the timerfd, or leave it, but never make it go off. -/
theorem timerfd_advanceAlarm {t : Int} (h : (s.advanceAlarm θ).timerfd = .fired t) :
    s.timerfd = .fired t := by
  simp only [advanceAlarm] at h
  split at h
  · simp only [setAlarmAtTimePoint, Timerfd.setAlarmAtTimePoint] at h
    split at h <;> cases h
  · exact h

theorem timerfd_delayAlarm {t : Int} (h : s.delayAlarm.timerfd = .fired t) :
    s.timerfd = .fired t := by
  simp only [delayAlarm] at h
  split at h
  · cases h
  · split at h
    · simp only [setAlarmAtTimePoint, Timerfd.setAlarmAtTimePoint] at h
      split at h <;> cases h
    · exact h

theorem timerfd_cancelATimer {address : Nat} {t : Int}
    (h : (s.cancelATimerAndUpdateAlarm address).timerfd = .fired t) : s.timerfd = .fired t := by
  rw [cancelATimerAndUpdateAlarm] at h
  cases hremoved : s.timerContainer.removeOne address with
  | none => rwa [hremoved] at h
  | some c =>
    rw [hremoved] at h
    have hs := timerfd_delayAlarm h
    exact hs

theorem timerfd_insertValidTimers {timers : List Timer} {t : Int}
    (h : (s.insertValidTimers θ timers).timerfd = .fired t) : s.timerfd = .fired t := by
  rw [insertValidTimers] at h
  split at h
  · exact h
  · have hs := timerfd_advanceAlarm h
    exact hs

@[simp] theorem timerfdTriggered_advanceAlarm :
    (s.advanceAlarm θ).timerfdTriggered = s.timerfdTriggered := by
  simp only [advanceAlarm]
  split <;> rfl

@[simp] theorem timerfdTriggered_delayAlarm :
    s.delayAlarm.timerfdTriggered = s.timerfdTriggered := by
  simp only [delayAlarm]
  split
  · rfl
  · split <;> rfl

@[simp] theorem timerfdTriggered_cancelATimer {address : Nat} :
    (s.cancelATimerAndUpdateAlarm address).timerfdTriggered = s.timerfdTriggered := by
  rw [cancelATimerAndUpdateAlarm]
  split
  · rfl
  · exact timerfdTriggered_delayAlarm

@[simp] theorem timerfdTriggered_insertValidTimers {timers : List Timer} :
    (s.insertValidTimers θ timers).timerfdTriggered = s.timerfdTriggered := by
  rw [insertValidTimers]
  split
  · rfl
  · exact timerfdTriggered_advanceAlarm

end Timers

namespace Loop

/-- The expiration times are positive, and `FOREVER` is out of their reach. -/
def InRange (θ : Int) (s : Loop) : Prop :=
  ∀ τ ∈ s.timers.timerContainer.timers,
    0 < τ.expirationTimePoint ∧ τ.expirationTimePoint < TimePoint.FOREVER - θ

instance (θ : Int) (s : Loop) : Decidable (s.InRange θ) :=
  inferInstanceAs (Decidable (∀ τ ∈ s.timers.timerContainer.timers,
    0 < τ.expirationTimePoint ∧ τ.expirationTimePoint < TimePoint.FOREVER - θ))

/-- The loop will expire the timers of time `t` in a pass that it has not begun. -/
def Seen (s : Loop) (t : Int) : Prop :=
  s.timers.timerfdTriggered = true ∧ t ≤ s.clock ∧ ∀ pass, s.pass = some pass → pass.caller ≠ .loop

/-- The timers are guarded by an alarm, and by nothing else where the loop polls. -/
structure Alert (θ : Int) (s : Loop) : Prop where
  guarded : s.timers.Guarded θ s.Seen
  fired : ∀ t, s.timers.timerfd = .fired t → t ≤ s.clock
  polling : s.wakeUp.loopThread = .polling → s.timers.timerfdTriggered = false

variable {θ : Int} {s t : Loop} {n capacity : Nat}

/-- Steps that change no timers, and leave the clock and the pass or move them on. -/
theorem Alert.of_timers (h : Alert θ s) (ht : t.timers = s.timers) (hclock : s.clock ≤ t.clock)
    (hpass : ∀ pass, t.pass = some pass → ∃ old, s.pass = some old ∧ old.caller = pass.caller)
    (hpoll : t.wakeUp.loopThread = .polling → s.wakeUp.loopThread = .polling ∨
      s.timers.timerfdTriggered = false) : Alert θ t where
  guarded := by
    rw [ht]
    apply h.guarded.mono
    intro time hboth
    obtain ⟨htriggered, hle, hcaller⟩ := hboth
    refine ⟨by rwa [ht], le_trans hle hclock, fun pass hp => ?_⟩
    obtain ⟨old, hold, hsame⟩ := hpass pass hp
    rw [← hsame]
    exact hcaller old hold
  fired time hfired := by
    rw [ht] at hfired
    exact le_trans (h.fired time hfired) hclock
  polling hp := by
    rw [ht]
    cases hpoll hp with
    | inl hold => exact h.polling hold
    | inr htriggered => exact htriggered

theorem Alert.add {timer : Timer} (h : Alert θ s) (hθ : 0 ≤ θ)
    (hrange : (s.add θ timer).InRange θ) : Alert θ (s.add θ timer) where
  guarded := by
    apply (h.guarded.addATimer hθ hrange).mono
    intro time hboth
    obtain ⟨htriggered, hrest⟩ := hboth
    exact ⟨by simpa [Loop.add, Timers.addATimerAndUpdateAlarm] using htriggered, hrest⟩
  fired time hfired := by
    have hold := Timers.timerfd_advanceAlarm hfired
    exact h.fired time hold
  polling hp := by
    simpa [Loop.add, Timers.addATimerAndUpdateAlarm] using h.polling hp

theorem Alert.cancel {address : Nat} (h : Alert θ s) (hθ : 0 ≤ θ) (hrange : s.InRange θ) :
    Alert θ (s.cancel address) where
  guarded := by
    apply (h.guarded.cancelATimer hθ fun τ hτ => (hrange τ hτ).1).mono
    intro time hboth
    obtain ⟨htriggered, hrest⟩ := hboth
    exact ⟨by simpa [Loop.cancel] using htriggered, hrest⟩
  fired time hfired := h.fired time (Timers.timerfd_cancelATimer hfired)
  polling hp := by
    simpa [Loop.cancel] using h.polling hp

theorem Alert.runFunctor {f : Functor} (h : Alert θ s) (hθ : 0 ≤ θ) (hrange : s.InRange θ)
    (hrange' : (s.runFunctor θ f).InRange θ) : Alert θ (s.runFunctor θ f) := by
  cases f with
  | addATimer timer => exact h.add hθ hrange'
  | cancelATimer address => exact h.cancel hθ hrange
  | other => exact h

theorem Alert.fire {time : Int} (h : Alert θ s) (hfd : s.timers.timerfd = .armed time)
    (hclock : time ≤ s.clock) : Alert θ { s with timers.timerfd := .fired time } where
  guarded := by
    refine ⟨h.guarded.empty, h.guarded.early, fun hne => ?_⟩
    cases h.guarded.alarm hne with
    | inl halarmed =>
      left
      right
      cases halarmed with
      | inl harmed =>
        rw [hfd] at harmed
        cases harmed
        rfl
      | inr hfired =>
        rw [hfd] at hfired
        cases hfired
    | inr hseen => exact .inr hseen
  fired other hother := by
    cases hother
    exact hclock
  polling := h.polling

/-- What the loop reads from the timerfd it remembers. -/
theorem Alert.readTimerfd {ready : List Nat} (h : Alert θ s)
    (hl : s.wakeUp.loopThread = .dispatching ready) (hpass : s.pass = none) :
    Alert θ { s with
      timers.timerfd :=
        match s.timers.timerfd with
        | .fired _ => .disarmed
        | other => other
      timers.timerfdTriggered := true } where
  guarded := by
    refine ⟨h.guarded.empty, h.guarded.early, fun hne => ?_⟩
    have hcaller : ∀ pass, s.pass = some pass → pass.caller ≠ .loop := by
      simp [hpass]
    cases h.guarded.alarm hne with
    | inl halarmed =>
      cases halarmed with
      | inl harmed =>
        left
        left
        simp [harmed]
      | inr hfired => exact .inr ⟨rfl, h.fired _ hfired, hcaller⟩
    | inr hseen => exact .inr ⟨rfl, hseen.2.1, hcaller⟩
  fired time hfired := by
    cases hfd : s.timers.timerfd with
    | disarmed => simp [hfd] at hfired
    | armed t => simp [hfd] at hfired
    | fired t => simp [hfd] at hfired
  polling hp := by
    simp [hl] at hp

theorem Alert.beginPass {caller : Caller} {timePoint : Int} (h : Alert θ s) (hθ : 0 ≤ θ)
    (hrange : s.InRange θ) (hbegin : s.MayBegin timePoint caller) :
    Alert θ (s.beginPass caller timePoint) where
  guarded := by
    apply h.guarded.moveOutExpiredTimers hθ fun τ hτ => (hrange τ hτ).1
    intro time hboth hlt
    obtain ⟨htriggered, hle, -⟩ := hboth
    refine ⟨by simpa [Loop.beginPass, Timers.moveOutExpiredTimers] using htriggered, hle, ?_⟩
    intro pass hp hcaller
    cases hp
    cases hcaller
    -- the loop expires the timers up to the current time, and no alarm it has seen is later
    obtain ⟨-, -, hnow⟩ := hbegin
    omega
  fired time hfired := by
    have hold := Timers.timerfd_delayAlarm hfired
    exact h.fired time hold
  polling hp := by
    simpa [Loop.beginPass, Timers.moveOutExpiredTimers] using h.polling hp

theorem Alert.endPass {pass : Pass} (h : Alert θ s) (hθ : 0 ≤ θ) (hpass : s.pass = some pass)
    (hrange : (s.endPass θ pass).InRange θ) : Alert θ (s.endPass θ pass) where
  guarded := by
    have hguarded := h.guarded.insertValidTimers hθ hrange
    refine ⟨hguarded.empty, hguarded.early, fun hne => ?_⟩
    cases hguarded.alarm hne with
    | inl halarmed => exact .inl halarmed
    | inr hseen =>
      right
      obtain ⟨htriggered, hle, hcaller⟩ := hseen
      refine ⟨?_, hle, by simp [Loop.endPass]⟩
      simpa [Loop.endPass, htriggered] using hcaller pass hpass
  fired time hfired := h.fired time (Timers.timerfd_insertValidTimers hfired)
  polling hp := by
    have htriggered := h.polling hp
    simp [Loop.endPass, htriggered]

theorem Alert.step (h : Alert θ s) (hθ : 0 ≤ θ) (hstep : Turn θ n capacity s t)
    (hrange : s.InRange θ) (hrange' : t.InRange θ) : Alert θ t := by
  have hsame : ∀ pass, s.pass = some pass →
      ∃ old, s.pass = some old ∧ old.caller = pass.caller := fun pass hp => ⟨pass, hp, rfl⟩
  cases hstep with
  | queues w hw _ _ hloop =>
    refine h.of_timers rfl le_rfl hsame ?_
    intro hpoll
    cases hloop with
    | inl hkeep => exact .inl (hkeep ▸ hpoll)
    | inr hmove =>
      cases polling_of_step hw hpoll with
      | inl hold => exact .inl hold
      | inr hchecking => exact .inr (hmove.2 hchecking)
  | post p i _ => exact h.of_timers rfl le_rfl hsame .inl
  | createElsewhere p i address _ _ _ _ _ => exact h.of_timers rfl le_rfl hsame .inl
  | cancelElsewhere p address _ _ => exact h.of_timers rfl le_rfl hsame .inl
  | create address timePoint interval repetitions _ _ =>
    have hcreated : Alert θ (s.create .loop address) := h.of_timers rfl le_rfl hsame .inl
    exact hcreated.add hθ hrange'
  | cancel address _ _ => exact h.cancel hθ hrange
  | runFunctor i f rest resume hl hpass =>
    have hran : Alert θ (s.runFunctor θ f) := h.runFunctor hθ hrange hrange'
    refine ⟨?_, hran.fired, fun hpoll => ?_⟩
    · exact hran.guarded
    · cases hpoll
  | tick clock hclock => exact h.of_timers rfl hclock hsame .inl
  | fire timePoint hfd hclock => exact h.fire hfd hclock
  | readTimerfd ready hl hpass => exact h.readTimerfd hl hpass
  | beginPass caller timePoint hpass hbegin => exact h.beginPass hθ hrange hbegin
  | start pass timer rest hpass _ _ =>
    refine h.of_timers rfl le_rfl ?_ .inl
    intro _ hboth
    cases hboth
    exact ⟨pass, hpass, rfl⟩
  | afterCallback pass timer hpass _ =>
    rw [Loop.afterCallback]
    split
    · refine h.of_timers rfl le_rfl ?_ .inl
      intro _ hboth
      cases hboth
      exact ⟨pass, hpass, rfl⟩
    · split
      · refine h.of_timers rfl le_rfl ?_ .inl
        intro _ hboth
        cases hboth
        exact ⟨pass, hpass, rfl⟩
      · refine h.of_timers rfl le_rfl ?_ .inl
        intro _ hboth
        cases hboth
        exact ⟨pass, hpass, rfl⟩
  | endPass pass hpass _ _ => exact h.endPass hθ hpass hrange'

theorem alert_initial {clock : Int} (hθ : 0 ≤ θ) (hrange : (initial θ clock).InRange θ) :
    Alert θ (initial θ clock) := by
  apply Alert.add _ hθ hrange
  refine ⟨⟨fun _ => rfl, ?_, fun hne => absurd rfl hne⟩, ?_, fun _ => rfl⟩
  · intro τ h
    cases h
  · intro time h
    cases h

/-- Whenever the loop is about to block, a pending timer has an alarm: the timerfd is set for, or
has gone off at, a time that is at most the threshold later than any expiration. -/
theorem alarm_for_earliest_timer {clock : Int} (hθ : 0 ≤ θ)
    (hrange : (initial θ clock).InRange θ)
    (hr : Reaches (Restricted (Turn θ n capacity) fun _ t => t.InRange θ) (initial θ clock) s)
    (hpoll : s.wakeUp.loopThread = .polling) (hne : s.timers.timerContainer.timers ≠ []) :
    (s.timers.timerfd = .armed s.timers.nextEarliestExpirationTime ∨
      s.timers.timerfd = .fired s.timers.nextEarliestExpirationTime) ∧
    s.timers.nextEarliestExpirationTime ≤
      s.timers.timerContainer.getEarliestExpirationTimePoint + θ ∧
    ∀ τ ∈ s.timers.timerContainer.timers,
      s.timers.timerContainer.getEarliestExpirationTimePoint ≤ τ.expirationTimePoint := by
  have hinv : Alert θ s ∧ s.InRange θ := by
    apply hr.invariant (I := fun s => Alert θ s ∧ s.InRange θ) ⟨alert_initial hθ hrange, hrange⟩
    intro a b h hboth
    obtain ⟨ha, hin⟩ := h
    obtain ⟨hstep, hin'⟩ := hboth
    exact ⟨ha.step hθ hstep hin hin', hin'⟩
  obtain ⟨halert, -⟩ := hinv
  obtain ⟨τ, hτ, hearliest⟩ := TimerContainer.exists_earliest hne
  refine ⟨?_, ?_, fun τ hτ => TimerContainer.earliest_le hτ⟩
  · cases halert.guarded.alarm hne with
    | inl halarmed => exact halarmed
    | inr hseen =>
      have htriggered := hseen.1
      rw [halert.polling hpoll] at htriggered
      cases htriggered
  · rw [hearliest]
    exact halert.guarded.early τ hτ

/-- A timer is created while the loop dispatches, and the loop polls again. -/
theorem alarm_for_earliest_timer_created : ∃ s : Loop,
    Reaches (Restricted (Turn 3 1 1) fun _ t => t.InRange 3) (initial 3 0) s ∧
      s.wakeUp.loopThread = .polling ∧ s.timers.timerContainer.timers.length = 2 ∧
      s.timers.nextEarliestExpirationTime = 5 ∧
      (s.timers.timerfd = .armed 5 ∨ s.timers.timerfd = .fired 5) := by
  have hrange : (initial 3 0).InRange 3 := by decide
  have hr : ∃ s : Loop,
      Reaches (Restricted (Turn 3 1 1) fun _ t => t.InRange 3) (initial 3 0) s ∧
      s.wakeUp.loopThread = .polling ∧ s.timers.timerContainer.timers.length = 2 ∧
      s.timers.nextEarliestExpirationTime = 5 := by
    refine ⟨_, .head ⟨.queues _ (.continueLoop rfl) rfl rfl (.inr ⟨rfl, fun _ => rfl⟩), ?_⟩ <|
      .head ⟨.queues _ (.poll [] rfl (by decide) (by decide)) rfl rfl (.inr ⟨rfl, nofun⟩), ?_⟩ <|
      .head ⟨.create 1 5 0 0 trivial rfl, ?_⟩ <|
      .head ⟨.queues _ (.dispatched rfl) rfl rfl (.inr ⟨rfl, nofun⟩), ?_⟩ <|
      .single ⟨.queues _ (.continueLoop rfl) rfl rfl (.inr ⟨rfl, fun _ => rfl⟩), ?_⟩,
      rfl, rfl, rfl⟩ <;> decide
  obtain ⟨s, hr, hpoll, hlength, hnext⟩ := hr
  have hne : s.timers.timerContainer.timers ≠ [] := by
    intro hnil
    simp [hnil] at hlength
  have halarm := (alarm_for_earliest_timer (by decide) hrange hr hpoll hne).1
  rw [hnext] at halarm
  exact ⟨s, hr, hpoll, hlength, hnext, halarm⟩

end Loop

end XubinhServer.EventLoop

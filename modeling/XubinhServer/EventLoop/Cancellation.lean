import XubinhServer.EventLoop.Turns

/-! When a timer that has been cancelled stays cancelled. A cancellation looks for the timer in
the container only, but a timer can also be on its way there, in a queued functor or in a pass
that expires it. -/
namespace XubinhServer.EventLoop.Loop

open Transition

/-- No callback starts after the timer's cancellation has run. -/
def CancelledForGood (history : List Event) : Prop :=
  history.Pairwise fun event later => ∀ address, event = .cancelled address →
    later ≠ .started address

/-- A queued functor is going to add the timer. -/
def AddQueued (address : Nat) (s : Loop) : Prop :=
  ∃ i timer, .addATimer timer ∈ pending s.wakeUp i ∧ timer.address = address

/-- A pass has the timer and is going to start it, or to insert it again. -/
def InPass (address : Nat) (s : Loop) : Prop :=
  ∃ pass, s.pass = some pass ∧
    ((∃ timer ∈ pass.expiredTimers ++ pass.timersThatAreStillValid, timer.address = address) ∨
      ∃ timer, pass.running = some timer ∧ timer.address = address ∧
        timer.afterCallback ≠ none)

/-- A step that cancels no timer on its way to the container. -/
def CancelsSettled (s t : Loop) : Prop :=
  ∀ address, t.history = s.history ++ [.cancelled address] →
    ¬AddQueued address s ∧ ¬InPass address s

/-- The timer has been created, and will not start any more. -/
structure Gone (address : Nat) (s : Loop) : Prop where
  created : s.creator address ≠ none
  notQueued : ¬AddQueued address s
  notInPass : ¬InPass address s
  notContained : ∀ timer ∈ s.timers.timerContainer.timers, timer.address ≠ address

/-- A cancelled timer is gone, and the timers that queued functors cancel have been created. -/
structure Cancelled (s : Loop) : Prop where
  ordered : ∀ i, Ordered s.wakeUp i
  created : ∀ i address, .cancelATimer address ∈ pending s.wakeUp i →
    s.creator address ≠ none
  gone : ∀ address, .cancelled address ∈ s.history → Gone address s
  forGood : CancelledForGood s.history

variable {θ : Int} {s t : Loop} {n capacity address : Nat}

theorem AddQueued.of_push {p i : Nat} {f : Functor}
    (ht : t.wakeUp = s.wakeUp.push p i f) (h : AddQueued address t)
    (hf : ∀ timer, f = .addATimer timer → timer.address ≠ address) : AddQueued address s := by
  obtain ⟨j, timer, hmem, haddress⟩ := h
  rw [ht] at hmem
  cases pending_push hmem with
  | inl hold => exact ⟨j, timer, hold, haddress⟩
  | inr hnew => exact absurd haddress (hf timer hnew.symm)

/-- A step that brings the timer to no queue, pass or container. -/
theorem Gone.of_subset (h : Gone address s) (hcreator : t.creator address ≠ none)
    (hqueued : AddQueued address t → AddQueued address s)
    (hpass : InPass address t → InPass address s)
    (hcontainer : ∀ timer ∈ t.timers.timerContainer.timers, timer.address = address →
      timer ∈ s.timers.timerContainer.timers) : Gone address t where
  created := hcreator
  notQueued := mt hqueued h.notQueued
  notInPass := mt hpass h.notInPass
  notContained timer htimer haddress :=
    h.notContained timer (hcontainer timer htimer haddress) haddress

theorem creator_create {thread : Thread} {other : Nat} (h : s.creator address ≠ none) :
    (s.create thread other).creator address ≠ none := by
  by_cases hother : address = other
  · simp [create, hother]
  · simpa [create, hother] using h

theorem ne_of_fresh {other : Nat} (h : s.creator address ≠ none) (hfresh : s.creator other = none) :
    other ≠ address := by
  intro heq
  subst heq
  exact h hfresh

/-- A cancellation removes the timer from the container, and from nowhere else. -/
theorem gone_cancel (hcreated : s.creator address ≠ none) (hqueued : ¬AddQueued address s)
    (hpass : ¬InPass address s) : Gone address (s.cancel address) where
  created := hcreated
  notQueued := hqueued
  notInPass := hpass
  notContained _ htimer := (Timers.mem_cancelATimer.mp htimer).2

@[simp] theorem wakeUp_runFunctor (f : Functor) :
    (s.runFunctor θ f).wakeUp = s.wakeUp := by
  cases f <;> rfl

theorem Gone.execute {i : Nat} {f : Functor} {rest : List Functor} {resume : Option (List Nat)}
    (h : Gone address s) (hl : s.wakeUp.loopThread = .executing i (f :: rest) resume) :
    Gone address { s with wakeUp := s.wakeUp.execute i f rest resume } := by
  refine h.of_subset h.created ?_ id fun _ htimer _ => htimer
  intro hboth
  obtain ⟨j, timer, hmem, haddress⟩ := hboth
  exact ⟨j, timer, pending_execute hl hmem, haddress⟩

theorem Gone.runFunctor {i : Nat} {f : Functor} {rest : List Functor}
    {resume : Option (List Nat)} (h : Gone address s)
    (hl : s.wakeUp.loopThread = .executing i (f :: rest) resume) :
    Gone address (s.runFunctor θ f) := by
  cases f with
  | addATimer timer =>
    refine h.of_subset h.created id id ?_
    intro τ hτ haddress
    cases Timers.mem_addATimer.mp hτ with
    | inl hnew =>
      refine absurd ⟨i, timer, ?_, hnew ▸ haddress⟩ h.notQueued
      simp [pending, batch, hl]
    | inr hold => exact hold
  | cancelATimer other =>
    refine h.of_subset h.created id id ?_
    exact fun _ hτ _ => (Timers.mem_cancelATimer.mp hτ).1
  | other => exact h

theorem wakeUp_afterCallback (pass : Pass) (timer : Timer) :
    (s.afterCallback pass timer).wakeUp = s.wakeUp := by
  rw [Loop.afterCallback]
  split
  · rfl
  · split <;> rfl

theorem creator_afterCallback (pass : Pass) (timer : Timer) :
    (s.afterCallback pass timer).creator = s.creator := by
  rw [Loop.afterCallback]
  split
  · rfl
  · split <;> rfl

theorem timers_afterCallback (pass : Pass) (timer : Timer) :
    (s.afterCallback pass timer).timers = s.timers := by
  rw [Loop.afterCallback]
  split
  · rfl
  · split <;> rfl

/-- The timers that a pass takes out of the container are not the ones that are gone. -/
theorem Gone.beginPass (h : Gone address s) (caller : Caller) (timePoint : Int) :
    Gone address (s.beginPass caller timePoint) := by
  refine h.of_subset h.created id ?_ ?_
  · intro hboth
    obtain ⟨pass, hpass, hin⟩ := hboth
    cases hpass
    obtain ⟨timer, htimer, haddress⟩ | ⟨timer, ⟨⟩, _⟩ := hin
    rw [List.append_nil] at htimer
    exact absurd haddress (h.notContained timer (TimerContainer.mem_moveOut_fst htimer))
  · intro timer htimer _
    simp only [Loop.beginPass, Timers.moveOutExpiredTimers,
      Timers.timerContainer_delayAlarm] at htimer
    exact (TimerContainer.mem_moveOut_snd htimer).1

theorem inPass_of_start {pass : Pass} {timer : Timer} {rest : List Timer}
    (hpass : s.pass = some pass) (hexpired : pass.expiredTimers = timer :: rest)
    (h : InPass address (s.start { pass with expiredTimers := rest } timer)) :
    InPass address s := by
  obtain ⟨_, ⟨⟩, hin⟩ := h
  refine ⟨pass, hpass, .inl ?_⟩
  obtain ⟨τ, hτ, haddress⟩ | ⟨_, ⟨⟩, haddress, _⟩ := hin
  · refine ⟨τ, ?_, haddress⟩
    rw [hexpired]
    exact List.mem_cons_of_mem _ hτ
  · exact ⟨timer, by simp [hexpired], haddress⟩

/-- A timer stays in its pass as what its callback leaves of it. -/
theorem inPass_of_afterCallback {pass : Pass} {timer : Timer} (hpass : s.pass = some pass)
    (hrunning : pass.running = some timer) (h : InPass address (s.afterCallback pass timer)) :
    InPass address s := by
  rw [Loop.afterCallback] at h
  cases hnext : timer.afterCallback with
  | none =>
    rw [hnext] at h
    obtain ⟨_, ⟨⟩, hin⟩ := h
    obtain hlist | ⟨_, ⟨⟩, _⟩ := hin
    exact ⟨pass, hpass, .inl hlist⟩
  | some next =>
    have haddress := Timer.address_of_afterCallback hnext
    have hagain : next.address = address → InPass address s := by
      intro hsame
      refine ⟨pass, hpass, .inr ⟨timer, hrunning, haddress ▸ hsame, ?_⟩⟩
      rw [hnext]
      exact Option.some_ne_none next
    rw [hnext] at h
    simp only at h
    split at h
    · obtain ⟨_, ⟨⟩, hin⟩ := h
      obtain ⟨τ, hτ, hsame⟩ | ⟨_, ⟨⟩, _⟩ := hin
      rw [← List.append_assoc, List.mem_append, List.mem_singleton] at hτ
      cases hτ with
      | inl hold => exact ⟨pass, hpass, .inl ⟨τ, hold, hsame⟩⟩
      | inr hnew => exact hagain (hnew ▸ hsame)
    · obtain ⟨_, ⟨⟩, hin⟩ := h
      obtain hlist | ⟨_, ⟨⟩, hsame, _⟩ := hin
      · exact ⟨pass, hpass, .inl hlist⟩
      · exact hagain hsame

/-- The timers that go back to the container are those of the pass. -/
theorem Gone.endPass {pass : Pass} (h : Gone address s) (hpass : s.pass = some pass) :
    Gone address (s.endPass θ pass) := by
  refine h.of_subset h.created id ?_ ?_
  · intro hboth
    obtain ⟨_, ⟨⟩, _⟩ := hboth
  · intro timer htimer haddress
    cases Timers.mem_insertValidTimers.mp htimer with
    | inl hvalid =>
      refine absurd ⟨pass, hpass, .inl ⟨timer, ?_, haddress⟩⟩ h.notInPass
      exact List.mem_append_right _ hvalid
    | inr hold => exact hold

/-- Nothing brings back a timer that is gone: an address is used once. -/
theorem Gone.step (h : Gone address s) (hordered : ∀ i, Ordered s.wakeUp i)
    (hstep : Turn θ n capacity s t) : Gone address t := by
  cases hstep with
  | queues w hw hpushed hexecuted _ =>
    refine h.of_subset h.created ?_ id fun _ htimer _ => htimer
    intro hboth
    obtain ⟨i, timer, hmem, haddress⟩ := hboth
    have hw : Ordered w i := (hordered i).step hw
    rw [pending_eq (hordered i) hw hpushed hexecuted] at hmem
    exact ⟨i, timer, hmem, haddress⟩
  | post p i _ =>
    refine h.of_subset h.created (fun hq => hq.of_push rfl nofun) id fun _ htimer _ => htimer
  | createElsewhere p i other _ _ _ hfresh _ =>
    have hne := ne_of_fresh h.created hfresh
    refine h.of_subset (creator_create h.created) (fun hq => hq.of_push rfl ?_) id
      fun _ htimer _ => htimer
    intro _ hboth
    cases hboth
    exact hne
  | cancelElsewhere p other _ _ =>
    refine h.of_subset h.created (fun hq => hq.of_push rfl nofun) id fun _ htimer _ => htimer
  | create other timePoint interval repetitions _ hfresh =>
    refine h.of_subset (creator_create h.created) id id ?_
    intro timer htimer haddress
    cases Timers.mem_addATimer.mp htimer with
    | inl hnew =>
      subst hnew
      exact absurd haddress (ne_of_fresh h.created hfresh)
    | inr hold => exact hold
  | cancel other _ _ =>
    refine h.of_subset h.created id id ?_
    exact fun _ htimer _ => (Timers.mem_cancelATimer.mp htimer).1
  | runFunctor i f rest resume hl _ =>
    have hrun : Gone address (s.runFunctor θ f) := h.runFunctor hl
    have hexecute := hrun.execute ((wakeUp_runFunctor (s := s) f).symm ▸ hl)
    rwa [wakeUp_runFunctor] at hexecute
  | tick clock _ => exact h.of_subset h.created id id fun _ htimer _ => htimer
  | fire timePoint _ _ => exact h.of_subset h.created id id fun _ htimer _ => htimer
  | readTimerfd ready _ _ => exact h.of_subset h.created id id fun _ htimer _ => htimer
  | beginPass caller timePoint _ _ => exact h.beginPass caller timePoint
  | start pass timer rest hpass _ hexpired =>
    exact h.of_subset h.created id (inPass_of_start hpass hexpired) fun _ htimer _ => htimer
  | afterCallback pass timer hpass hrunning =>
    refine h.of_subset ?_ ?_ (inPass_of_afterCallback hpass hrunning) ?_
    · rw [creator_afterCallback]
      exact h.created
    · rw [AddQueued, wakeUp_afterCallback]
      exact id
    · rw [timers_afterCallback]
      exact fun _ htimer _ => htimer
  | endPass pass hpass _ _ => exact h.endPass hpass

/-- The queues take their own steps. -/
theorem wakeUp_of_turn (hstep : Turn θ n capacity s t) :
    t.wakeUp = s.wakeUp ∨ Step n capacity s.wakeUp t.wakeUp := by
  cases hstep with
  | queues w hw _ _ _ => exact .inr hw
  | post p i hw => exact .inr hw
  | createElsewhere p i address _ _ _ _ hw => exact .inr hw
  | cancelElsewhere p address _ hw => exact .inr hw
  | runFunctor i f rest resume hl _ => exact .inr (.execute i f rest resume hl)
  | afterCallback pass timer _ _ => exact .inl (wakeUp_afterCallback pass timer)
  | _ => exact .inl rfl

theorem Cancelled.created_step (h : Cancelled s) (hstep : Turn θ n capacity s t) {i : Nat}
    (hmem : .cancelATimer address ∈ pending t.wakeUp i) : t.creator address ≠ none := by
  cases hstep with
  | queues w hw hpushed hexecuted _ =>
    have hw : Ordered w i := (h.ordered i).step hw
    rw [pending_eq (h.ordered i) hw hpushed hexecuted] at hmem
    exact h.created i address hmem
  | post p j _ =>
    cases pending_push hmem with
    | inl hold => exact h.created i address hold
    | inr hnew => cases hnew
  | createElsewhere p j other _ _ _ _ _ =>
    cases pending_push hmem with
    | inl hold => exact creator_create (h.created i address hold)
    | inr hnew => cases hnew
  | cancelElsewhere p other hc _ =>
    cases pending_push hmem with
    | inl hold => exact h.created i address hold
    | inr hnew =>
      cases hnew
      simp [hc]
  | create other _ _ _ _ _ => exact creator_create (h.created i address hmem)
  | runFunctor j f rest resume hl _ =>
    have hcreated := h.created i address (pending_execute hl hmem)
    cases f <;> exact hcreated
  | afterCallback pass timer _ _ =>
    rw [wakeUp_afterCallback] at hmem
    rw [creator_afterCallback]
    exact h.created i address hmem
  | _ => exact h.created i address hmem

/-- A step starts a timer that a pass has, or cancels one, or does neither. -/
theorem history_of_turn (h : Cancelled s) (hstep : Turn θ n capacity s t) :
    t.history = s.history ∨
      (∃ address, t.history = s.history ++ [.started address] ∧ InPass address s) ∨
      ∃ address, t.history = s.history ++ [.cancelled address] ∧
        (¬AddQueued address s → ¬InPass address s → Gone address t) := by
  cases hstep with
  | cancel address _ hc =>
    right
    right
    have hcreated : s.creator address ≠ none := by simp [hc]
    exact ⟨address, rfl, gone_cancel hcreated⟩
  | runFunctor i f rest resume hl _ =>
    cases f with
    | addATimer timer => exact .inl rfl
    | cancelATimer address =>
      right
      right
      refine ⟨address, rfl, fun hqueued hpass => ?_⟩
      have hcreated : s.creator address ≠ none := by
        apply h.created i address
        simp [pending, batch, hl]
      exact (gone_cancel hcreated hqueued hpass).execute hl
    | other => exact .inl rfl
  | start pass timer rest hpass _ hexpired =>
    right
    left
    exact ⟨timer.address, rfl, pass, hpass, .inl ⟨timer, by simp [hexpired], rfl⟩⟩
  | afterCallback pass timer hpass hrunning =>
    rw [Loop.afterCallback]
    cases hnext : timer.afterCallback with
    | none => exact .inl rfl
    | some next =>
      simp only
      split
      · exact .inl rfl
      · right
        left
        refine ⟨next.address, rfl, pass, hpass, .inr ⟨timer, hrunning, ?_, by simp [hnext]⟩⟩
        exact (Timer.address_of_afterCallback hnext).symm
  | _ => exact .inl rfl

theorem Cancelled.step (h : Cancelled s) (hstep : Turn θ n capacity s t)
    (hsettled : CancelsSettled s t) : Cancelled t := by
  have hordered : ∀ i, Ordered t.wakeUp i := by
    intro i
    cases wakeUp_of_turn hstep with
    | inl hsame => exact hsame ▸ h.ordered i
    | inr hw => exact (h.ordered i).step hw
  have hcreated : ∀ i address, .cancelATimer address ∈ pending t.wakeUp i →
      t.creator address ≠ none := fun i address hmem => h.created_step hstep hmem
  have hgone : ∀ address, .cancelled address ∈ s.history → Gone address t :=
    fun address hmem => (h.gone address hmem).step h.ordered hstep
  obtain hsame | ⟨address, hstarted, hpass⟩ | ⟨address, hcancelled, hnew⟩ :=
    history_of_turn h hstep
  · exact ⟨hordered, hcreated, hsame ▸ hgone, hsame ▸ h.forGood⟩
  · refine ⟨hordered, hcreated, fun other hmem => ?_, ?_⟩
    · rw [hstarted, List.mem_append] at hmem
      cases hmem with
      | inl hold => exact hgone other hold
      | inr hnew => simp at hnew
    · rw [hstarted, CancelledForGood, List.pairwise_append]
      refine ⟨h.forGood, List.pairwise_singleton _ _, ?_⟩
      intro _ hevent _ hlast other heq1 heq
      subst heq1
      rw [List.mem_singleton] at hlast
      cases hlast.symm.trans heq
      exact (h.gone _ hevent).notInPass hpass
  · obtain ⟨hqueued, hpass⟩ := hsettled address hcancelled
    refine ⟨hordered, hcreated, fun other hmem => ?_, ?_⟩
    · rw [hcancelled, List.mem_append] at hmem
      cases hmem with
      | inl hold => exact hgone other hold
      | inr hlast =>
        rw [List.mem_singleton] at hlast
        cases hlast
        exact hnew hqueued hpass
    · rw [hcancelled, CancelledForGood, List.pairwise_append]
      refine ⟨h.forGood, List.pairwise_singleton _ _, ?_⟩
      intro _ _ _ hlast other heq1 heq
      subst heq1
      rw [List.mem_singleton] at hlast
      cases hlast.symm.trans heq

theorem cancelled_initial (clock : Int) : Cancelled (initial θ clock) where
  ordered := ordered_initial
  created _ _ hmem := by cases hmem
  gone _ hmem := by cases hmem
  forGood := .nil

/-- In a run that cancels timers only while they are in the container or will not start any more,
a timer that has been cancelled does not start again. -/
theorem cancelled_for_good {clock : Int}
    (hr : Reaches (Restricted (Turn θ n capacity) CancelsSettled) (initial θ clock) s) :
    CancelledForGood s.history := by
  have hcancelled : Cancelled s :=
    hr.invariant (cancelled_initial clock) fun _ _ h hstep => h.step hstep.1 hstep.2
  exact hcancelled.forGood

/-- A timer is created, cancelled, and never starts. -/
theorem cancelled_for_good_created : ∃ s : Loop,
    Reaches (Restricted (Turn 3 1 1) CancelsSettled) (initial 3 0) s ∧
      s.history = [.cancelled 1] ∧ CancelledForGood s.history := by
  have hr : ∃ s : Loop, Reaches (Restricted (Turn 3 1 1) CancelsSettled) (initial 3 0) s ∧
      s.history = [.cancelled 1] := by
    refine ⟨_, .head ⟨.queues _ (.continueLoop rfl) rfl rfl (.inr ⟨rfl, fun _ => rfl⟩), nofun⟩ <|
      .head ⟨.queues _ (.poll [] rfl (by decide) (by decide)) rfl rfl (.inr ⟨rfl, nofun⟩), nofun⟩ <|
      .head ⟨.create 1 5 0 0 trivial rfl, nofun⟩ <| .single ⟨.cancel 1 trivial rfl, ?_⟩, rfl⟩
    intro address _
    refine ⟨?_, ?_⟩
    · intro h
      obtain ⟨i, timer, hmem, -⟩ := h
      cases hmem
    · intro h
      obtain ⟨pass, ⟨⟩, -⟩ := h
  obtain ⟨s, hr, hhistory⟩ := hr
  exact ⟨s, hr, hhistory, cancelled_for_good hr⟩

/-- Two timers are due at the same time, and the callback of the first cancels the second. -/
theorem started_after_cancelled : ¬∀ (θ clock : Int) (n capacity : Nat) (s : Loop),
    Reaches (Turn θ n capacity) (initial θ clock) s → CancelledForGood s.history := by
  intro h
  have hr : ∃ s : Loop, Reaches (Turn 3 1 1) (initial 3 0) s ∧
      s.history = [.started 1, .cancelled 2, .started 2] := by
    refine ⟨_, .head (.queues _ (.continueLoop rfl) rfl rfl (.inr ⟨rfl, fun _ => rfl⟩)) <|
      .head (.queues _ (.poll [] rfl (by decide) (by decide)) rfl rfl (.inr ⟨rfl, nofun⟩)) <|
      .head (.create 1 5 0 0 trivial rfl) <| .head (.create 2 5 0 0 trivial rfl) <|
      .head (.queues _ (.dispatched rfl) rfl rfl (.inr ⟨rfl, nofun⟩)) <|
      .head (.queues _ (.continueLoop rfl) rfl rfl (.inr ⟨rfl, fun _ => rfl⟩)) <|
      .head (.tick 5 (by decide)) <| .head (.fire 5 rfl (by decide)) <|
      .head (.queues _ (.poll [] rfl (by decide) (by decide)) rfl rfl (.inr ⟨rfl, nofun⟩)) <|
      .head (.readTimerfd [] rfl rfl) <|
      .head (.queues _ (.dispatched rfl) rfl rfl (.inr ⟨rfl, nofun⟩)) <|
      .head (.beginPass .loop 5 rfl ⟨rfl, rfl, rfl⟩) <| .head (.start _ _ _ rfl rfl rfl) <|
      .head (.cancel 2 rfl rfl) <| .head (.afterCallback _ _ rfl rfl) <|
      .single (.start _ _ _ rfl rfl rfl), rfl⟩
  obtain ⟨s, hr, hhistory⟩ := hr
  have hgood := h 3 0 1 1 s hr
  rw [hhistory] at hgood
  simp [CancelledForGood] at hgood

end XubinhServer.EventLoop.Loop

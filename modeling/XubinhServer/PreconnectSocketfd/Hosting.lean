import XubinhServer.PreconnectSocketfd.Handover

/-! A connecting socket with its fd runs as the one without. While each cancellation is settled it
hands over no fd but its own. -/
namespace XubinhServer.PreconnectSocketfd.Hosted

open Function (update)

open Transition

variable {s t : Hosted} {a : SocketAnswers} {allowed : State → Prop}

/-- What the socket sees of the kernel's answers, if nothing halts. -/
def seen (a : SocketAnswers) (s : Hosted) : ConnectAnswers :=
  ⟨s.connectToServer a, s.getSocketfdErrno a, false, false⟩

theorem detachAndClose_state {b : ConnectAnswers} (hclose : b.closeFails = false)
    (hok : s.detachAndClose a = .ok t) : s.state.detachAndClose b = .ok t.state := by
  obtain ⟨poller, rfl, _⟩ := detachAndClose_ok hok
  rw [State.detachAndClose, hclose, if_neg (by decide)]
  rfl

theorem connected_state (hok : s.connected = .ok t) : t.state = s.state.connected := by
  obtain ⟨u, hu, ht⟩ := bind_ok hok
  obtain ⟨poller, rfl, _⟩ := detachFromPoller_ok hu
  cases ht
  rfl

theorem scheduleRetry_state {b : ConnectAnswers} (hsocket : b.socketFails = false)
    (hclose : b.closeFails = false) (hok : s.scheduleRetry a = .ok t) :
    s.state.scheduleRetry b = .ok t.state := by
  rw [Hosted.scheduleRetry] at hok
  rw [State.scheduleRetry]
  split at hok
  · rename_i hlast
    obtain ⟨u, hu, ht⟩ := bind_ok hok
    cases ht
    rw [if_pos hlast, detachAndClose_state hclose hu]
    rfl
  · rename_i hmore
    obtain ⟨files, _, hrest⟩ := bind_ok hok
    obtain ⟨u, hu, ht⟩ := bind_ok hrest
    obtain ⟨poller, rfl, _⟩ := resetTo_ok hu
    cases ht
    simp only [if_neg hmore, State.resetToNewSocketfd, hsocket, hclose]
    rfl

theorem enableWriteEvent_state (hok : s.enableWriteEvent = .ok t) :
    t.state = { s.state with conn.pollable := s.state.conn.pollable.enableWriteEvent } := by
  obtain ⟨poller, rfl, _⟩ := enableWriteEvent_ok hok
  rfl

theorem writeEventCallback_state (hok : s.writeEventCallback a = .ok t) :
    s.state.writeEventCallback (s.seen a) = .ok t.state := by
  rw [Hosted.writeEventCallback] at hok
  rw [State.writeEventCallback, seen]
  cases herrno : s.getSocketfdErrno a with
  | none =>
    rw [herrno] at hok
    cases hok
  | some savedErrno =>
    rw [herrno] at hok
    by_cases hzero : savedErrno = 0
    · simp only [hzero, if_true] at hok ⊢
      exact congrArg Except.ok (connected_state hok).symm
    · simp only [hzero, if_false] at hok ⊢
      exact scheduleRetry_state rfl rfl hok

theorem tryOnce_state (hok : s.tryOnce a = .ok t) :
    s.state.tryOnce (s.seen a) = .ok t.state := by
  have hretry : ({ s with state := s.state.record .connect }).scheduleRetry a = .ok t →
      (s.state.record .connect).scheduleRetry (s.seen a) = .ok t.state :=
    scheduleRetry_state rfl rfl
  rw [Hosted.tryOnce] at hok
  rw [State.tryOnce]
  have hanswer : (s.seen a).connect =
      ({ s with state := s.state.record .connect }).connectToServer a := rfl
  rw [hanswer]
  cases hconnect : ({ s with state := s.state.record .connect }).connectToServer a with
  | success =>
    rw [hconnect] at hok
    exact congrArg Except.ok (connected_state hok).symm
  | error errno =>
    rw [hconnect] at hok
    cases errno with
    | EINPROGRESS => exact congrArg Except.ok (enableWriteEvent_state hok).symm
    | EADDRINUSE => exact hretry hok
    | EADDRNOTAVAIL => exact hretry hok
    | EAGAIN => exact hretry hok
    | ECONNREFUSED => exact hretry hok
    | ENETUNREACH => exact hretry hok
    | other code => cases hok
    | EALREADY => cases hok; rfl
    | EISCONN => cases hok; rfl
    | EACCES => cases hok; rfl
    | EPERM => cases hok; rfl
    | EAFNOSUPPORT => cases hok; rfl
    | EBADF => cases hok; rfl
    | EFAULT => cases hok; rfl
    | ENOTSOCK => cases hok; rfl
    | EPROTOTYPE => cases hok; rfl

theorem start_state (hok : s.start a = .ok t) : s.state.start (s.seen a) = .ok t.state := by
  rw [Hosted.start] at hok
  rw [State.start]
  split at hok
  · cases hok
  · rename_i hregistered
    rw [if_neg hregistered]
    exact tryOnce_state hok

theorem cancel_state (hok : s.cancel a = .ok t) : s.state.cancel (s.seen a) = .ok t.state := by
  rw [Hosted.cancel] at hok
  rw [State.cancel]
  cases hidentifier : s.state.conn.timerIdentifier with
  | none =>
    rw [hidentifier] at hok
    cases hok
    rfl
  | some identifier =>
    rw [hidentifier] at hok
    obtain ⟨u, hu, ht⟩ := bind_ok hok
    cases ht
    have hstate := detachAndClose_state (b := s.seen a) rfl hu
    simp only [hstate]
    rfl

/-- With its fd left out, a step is one of the socket, or nothing. -/
theorem Step.state (hstep : Step allowed s t) :
    t.state = s.state ∨ PreconnectSocketfd.Step allowed s.state t.state := by
  cases hstep with
  | start a _ hidle hok => exact .inr (.start (s.seen a) hidle (start_state hok))
  | cancel a hallowed hok => exact .inr (.cancel (s.seen a) hallowed (cancel_state hok))
  | poll hwriting => exact .inr (.poll hwriting)
  | dispatch a _ hpolled hok =>
    exact .inr (.dispatch _ hpolled (writeEventCallback_state hok))
  | expire due => exact .inr (.expire due)
  | fire a _ hexpired hok => exact .inr (.fire _ hexpired (tryOnce_state hok))
  | others => exact .inl rfl

/-- With its fd left out, a run is one of the socket. -/
theorem reaches_state (hreach : Reaches (Step allowed) s t) :
    Reaches (PreconnectSocketfd.Step allowed) s.state t.state :=
  hreach.project Hosted.state fun _ _ => Step.state

/-- While each cancellation is settled: what is not held any more is finished, and what has been
handed over was held. -/
structure Tied (s : Hosted) : Prop where
  held : s.held = true ∨ Finished s.state
  handovers : ∀ handover ∈ s.handovers, handover.held = true

section Attempts

variable (htied : Tied s) (hstarted : s.state.started = true)
  (hpolled : s.state.polled = false) (htimers : s.state.timers = [])
  (hexpired : s.state.expired = []) (hhistory : Untouched s.state.history)

include htied hstarted hpolled htimers hexpired hhistory

theorem tied_scheduleRetry (hok : s.scheduleRetry a = .ok t) : Tied t := by
  rw [Hosted.scheduleRetry] at hok
  split at hok
  · obtain ⟨u, hu, ht⟩ := bind_ok hok
    obtain ⟨poller, rfl, _⟩ := detachAndClose_ok hu
    cases ht
    exact ⟨.inr (finished_close hstarted hpolled htimers hexpired hhistory), htied.handovers⟩
  · obtain ⟨files, _, hrest⟩ := bind_ok hok
    obtain ⟨u, hu, ht⟩ := bind_ok hrest
    obtain ⟨poller, rfl, _⟩ := resetTo_ok hu
    cases ht
    exact ⟨.inl rfl, htied.handovers⟩

variable (hheld : s.held = true)

include hheld

theorem tied_connected (hok : s.connected = .ok t) : Tied t := by
  have hfinished : Finished t.state := by
    rw [connected_state hok]
    exact finished_connected hstarted hpolled htimers hexpired hhistory
  obtain ⟨u, hu, ht⟩ := bind_ok hok
  obtain ⟨poller, rfl, _⟩ := detachFromPoller_ok hu
  cases ht
  refine ⟨.inr hfinished, fun handover hmem => ?_⟩
  cases List.mem_append.mp hmem with
  | inl hbefore => exact htied.handovers handover hbefore
  | inr hnow =>
    rw [List.mem_singleton.mp hnow]
    exact hheld

theorem tied_writeEventCallback (hok : s.writeEventCallback a = .ok t) : Tied t := by
  rw [Hosted.writeEventCallback] at hok
  split at hok
  · cases hok
  · split at hok
    · exact tied_connected htied hstarted hpolled htimers hexpired hhistory hheld hok
    · exact tied_scheduleRetry htied hstarted hpolled htimers hexpired hhistory hok

theorem tied_tryOnce (hok : s.tryOnce a = .ok t) : Tied t := by
  have hbegun : Tied { s with state := s.state.record .connect } :=
    ⟨.inl hheld, htied.handovers⟩
  have hconnect := hhistory.connect
  cases tried_of_tryOnce hok with
  | connected hok =>
    exact tied_connected hbegun hstarted hpolled htimers hexpired hconnect hheld hok
  | waits hok =>
    obtain ⟨poller, rfl, _⟩ := enableWriteEvent_ok hok
    exact ⟨.inl hheld, htied.handovers⟩
  | retried _ hok => exact tied_scheduleRetry hbegun hstarted hpolled htimers hexpired hconnect hok
  | failed ht =>
    rw [ht]
    exact ⟨.inl hheld, htied.handovers⟩

end Attempts

/-- As long as something is pending, the socket is held. -/
theorem Tied.pending (h : Tied s) (hpending : ¬Finished s.state) : s.held = true := by
  cases h.held with
  | inl hheld => exact hheld
  | inr hfinished => exact absurd hfinished hpending

theorem cancel_handovers (hok : s.cancel a = .ok t) : t.handovers = s.handovers := by
  rw [Hosted.cancel] at hok
  split at hok
  · cases hok
    rfl
  · obtain ⟨u, hu, ht⟩ := bind_ok hok
    obtain ⟨poller, rfl, _⟩ := detachAndClose_ok hu
    cases ht
    rfl

theorem finished_expire {state : State} (h : Finished state) (due : RetryTimer → Bool) :
    Finished (state.expire due) where
  started := h.started
  idle := by
    refine ⟨h.idle.writing, h.idle.polled, ?_, ?_⟩
    · simp [State.expire, h.idle.timers]
    · simp [State.expire, h.idle.timers, h.idle.expired]
  sound := h.sound
  done := h.done

theorem Tied.start (h : Tied s) (hphase : Phase s.state) (hidle : s.state.started = false)
    (hok : s.start a = .ok t) : Tied t := by
  have hpending : ¬Finished s.state := fun hfinished =>
    absurd hfinished.started (by simp [hidle])
  have hheld := h.pending hpending
  cases hphase with
  | attempting hstarted => exact absurd hstarted (by simp [hidle])
  | waiting hstarted => exact absurd hstarted (by simp [hidle])
  | finished hfinished => exact absurd hfinished hpending
  | fresh _ hnothing _ hhistory =>
    rw [Hosted.start] at hok
    split at hok
    · cases hok
    · refine tied_tryOnce (s := { s with state.started := true }) ⟨.inl hheld, h.handovers⟩
        rfl hnothing.polled hnothing.timers hnothing.expired ?_ hheld hok
      intro event hevent
      rw [hhistory] at hevent
      cases hevent

theorem Tied.dispatch (h : Tied s) (hphase : Phase s.state) (hpolled : s.state.polled = true)
    (hok : { s with state.polled := false }.writeEventCallback a = .ok t) : Tied t := by
  have hpending : ¬Finished s.state := fun hfinished =>
    absurd hfinished.idle.polled (by simp [hpolled])
  have hheld := h.pending hpending
  cases hphase with
  | fresh _ hnothing => exact absurd hpolled (by simp [hnothing.polled])
  | waiting _ _ hquiet => exact absurd hpolled (by simp [hquiet])
  | finished hfinished => exact absurd hfinished hpending
  | attempting hstarted _ htimers hexpired hhistory =>
    exact tied_writeEventCallback (s := { s with state.polled := false })
      ⟨.inl hheld, h.handovers⟩ hstarted rfl htimers hexpired hhistory hheld hok

theorem Tied.fire (h : Tied s) (hphase : Phase s.state) {timer : RetryTimer}
    {rest : List RetryTimer} (hexpired : s.state.expired = timer :: rest)
    (hok : { s with state.expired := rest }.tryOnce a = .ok t) : Tied t := by
  have hpending : ¬Finished s.state := fun hfinished =>
    absurd hexpired (by simp [hfinished.idle.expired])
  have hheld := h.pending hpending
  cases hphase with
  | fresh _ hnothing => exact absurd hexpired (by simp [hnothing.expired])
  | attempting _ _ _ hnoneExpired => exact absurd hexpired (by simp [hnoneExpired])
  | finished hfinished => exact absurd hfinished hpending
  | waiting hstarted _ hpolled timer hmoved _ hhistory =>
    cases hmoved with
    | inl hcontained => exact absurd hexpired (by simp [hcontained.2])
    | inr hmoved =>
      obtain ⟨htimers, hone⟩ := hmoved
      rw [hone] at hexpired
      cases hexpired
      exact tied_tryOnce (s := { s with state.expired := [] }) ⟨.inl hheld, h.handovers⟩
        hstarted hpolled htimers rfl hhistory hheld hok

theorem tied_step (hphase : Phase s.state) (h : Tied s) (hstep : Step CancelSettled s t) :
    Tied t := by
  cases hstep with
  | start a _ hidle hok => exact h.start hphase hidle hok
  | cancel a hsettled hok =>
    refine ⟨.inr (phase_cancel hphase hsettled (cancel_state hok)), ?_⟩
    rw [cancel_handovers hok]
    exact h.handovers
  | poll hwriting =>
    have hpending : ¬Finished s.state := fun hfinished =>
      absurd hfinished.idle.writing (by simp [hwriting])
    exact ⟨.inl (h.pending hpending), h.handovers⟩
  | dispatch a _ hpolled hok => exact h.dispatch hphase hpolled hok
  | expire due =>
    cases h.held with
    | inl hheld => exact ⟨.inl hheld, h.handovers⟩
    | inr hfinished => exact ⟨.inr (finished_expire hfinished due), h.handovers⟩
  | fire a _ hexpired hok => exact h.fire hphase hexpired hok
  | others files poller hopened hown =>
    cases h.held with
    | inl hheld => exact ⟨.inl hheld, h.handovers⟩
    | inr hfinished => exact ⟨.inr hfinished, h.handovers⟩

section Run

variable {files : Nat → Option FileMode} {poller : EventPoller} {maxNumberOfRetries : Int}
  {hasNewConnectionCallback hasConnectFailCallback : Bool}

theorem construct_initial {conn : PreconnectSocketfd}
    (hok : construct a conn files poller = .ok s) :
    s.state = .initial conn ∧ s.held = true ∧ s.handovers = [] := by
  obtain ⟨created, _, hrest⟩ := bind_ok hok
  obtain ⟨configured, _, hs⟩ := bind_ok hrest
  cases hs
  exact ⟨rfl, rfl, rfl⟩

/-- As long as each cancellation is settled, an fd is handed over ready exactly before the first
retry. -/
theorem ready_iff_of_settled {s₀ : Hosted} (hopened : Opened files poller)
    (hfresh : files a.newSocketfd = none)
    (hnew : construct a (new maxNumberOfRetries hasNewConnectionCallback hasConnectFailCallback)
      files poller = .ok s₀)
    (hreach : Reaches (Step CancelSettled) s₀ s) :
    ∀ handover ∈ s.handovers, handover.Ready ↔ handover.numberOfRetries = 0 := by
  intro handover hmem
  obtain ⟨hinitial, hheld, hnone⟩ := construct_initial hnew
  have hphase : Phase s₀.state := by
    rw [hinitial]
    exact phase_initial _ _ _
  have htied : Tied s₀ := ⟨.inl hheld, fun _ hbefore => by
    rw [hnone] at hbefore
    cases hbefore⟩
  have hboth : Phase s.state ∧ Tied s := by
    refine hreach.invariant (I := fun u => Phase u.state ∧ Tied u) ⟨hphase, htied⟩ ?_
    intro u v hu hstep
    refine ⟨?_, tied_step hu.1 hu.2 hstep⟩
    cases hstep.state with
    | inl hsame => exact hsame ▸ hu.1
    | inr hnext => exact phase_step hu.1 hnext
  have hsane : Sane s := hreach.invariant (sane_construct hopened hfresh hnew)
    fun _ _ => sane_step
  exact (hsane.kept.accounted handover hmem).ready_iff (hboth.2.handovers handover hmem)

end Run

end XubinhServer.PreconnectSocketfd.Hosted

import XubinhServer.PreconnectSocketfd

/-! When a socket that is not connected yet reports once, and stays quiet once it has been
cancelled. `cancel` goes by the stored timer identifier alone, which is not there during the first
attempt and stays there when an attempt is over. -/
namespace XubinhServer.PreconnectSocketfd

open Transition

/-- One callback at most, and after a cancellation neither a connection nor an attempt. -/
structure Sound (history : List Event) : Prop where
  once : history.countP Event.isCallback ≤ 1
  quiet : history.Pairwise fun event later =>
    event = .cancelled → later ≠ .newConnection ∧ later ≠ .connect

/-- A cancellation in this state finds what is pending. Without a stored identifier, the socket
has been started, and no attempt waits at the poller. With one, no write event has been polled,
the pass going on has not moved the retry timer out of the container, and if there is a connect
fail callback, the retry timer or an attempt is pending. -/
def CancelSettled (s : State) : Prop :=
  match s.conn.timerIdentifier with
  | none => s.started = true ∧ s.conn.pollable.isWriting = false
  | some identifier =>
    s.polled = false ∧ (∀ timer ∈ s.expired, timer.identifier ≠ identifier) ∧
      (s.conn.hasConnectFailCallback = true →
        (∃ timer ∈ s.timers, timer.identifier = identifier) ∨
          s.conn.pollable.isWriting = true)

instance (s : State) : Decidable (CancelSettled s) :=
  match h : s.conn.timerIdentifier with
  | none =>
    decidable_of_iff (s.started = true ∧ s.conn.pollable.isWriting = false)
      (by rw [CancelSettled, h])
  | some identifier =>
    decidable_of_iff (s.polled = false ∧ (∀ timer ∈ s.expired, timer.identifier ≠ identifier) ∧
        (s.conn.hasConnectFailCallback = true →
          (∃ timer ∈ s.timers, timer.identifier = identifier) ∨
            s.conn.pollable.isWriting = true))
      (by rw [CancelSettled, h])

/-- Only attempts so far. -/
def Untouched (history : List Event) : Prop := ∀ event ∈ history, event = .connect

/-- Nothing is pending. -/
structure Idle (s : State) : Prop where
  writing : s.conn.pollable.isWriting = false
  polled : s.polled = false
  timers : s.timers = []
  expired : s.expired = []

/-- All is over, and it has been reported. -/
structure Finished (s : State) : Prop where
  started : s.started = true
  idle : Idle s
  sound : Sound s.history
  done : s.conn.hasConnectFailCallback = true → s.history.countP Event.isCallback = 1

/-- What is pending in the states that are reached, one thing at a time. -/
inductive Phase (s : State) : Prop
  | fresh (hstarted : s.started = false) (hidle : Idle s) (hnone : s.conn.timerIdentifier = none)
      (hhistory : s.history = []) : Phase s
  | attempting (hstarted : s.started = true) (hwriting : s.conn.pollable.isWriting = true)
      (htimers : s.timers = []) (hexpired : s.expired = []) (hhistory : Untouched s.history) :
      Phase s
  | waiting (hstarted : s.started = true) (hwriting : s.conn.pollable.isWriting = false)
      (hpolled : s.polled = false) (timer : RetryTimer)
      (htimers : s.timers = [timer] ∧ s.expired = [] ∨ s.timers = [] ∧ s.expired = [timer])
      (hstored : s.conn.timerIdentifier = some timer.identifier)
      (hhistory : Untouched s.history) : Phase s
  | finished (hfinished : Finished s) : Phase s

variable {s t : State} {a : ConnectAnswers} {history : List Event} {event : Event}

theorem Untouched.count (h : Untouched history) : history.countP Event.isCallback = 0 := by
  rw [List.countP_eq_zero]
  intro event hevent
  rw [h event hevent]
  decide

theorem Untouched.connect (h : Untouched history) : Untouched (history ++ [.connect]) := by
  intro event hevent
  cases List.mem_append.mp hevent with
  | inl hmem => exact h event hmem
  | inr hmem => exact List.mem_singleton.mp hmem

theorem Untouched.sound (h : Untouched history) : Sound history where
  once := by rw [h.count]; exact Nat.zero_le 1
  quiet := by
    refine List.pairwise_of_forall_mem_list fun event hevent later _ heq => ?_
    rw [h event hevent] at heq
    cases heq

/-- The first callback, while nothing has been cancelled. -/
theorem Untouched.callback (h : Untouched history) : Sound (history ++ [event]) where
  once := by
    rw [List.countP_append, h.count, List.countP_singleton]
    split <;> decide
  quiet := by
    refine List.pairwise_append.mpr ⟨h.sound.quiet, List.pairwise_singleton _ _, ?_⟩
    intro earlier hearlier later _ heq
    rw [h earlier hearlier] at heq
    cases heq

theorem Untouched.count_callback (h : Untouched history) (hevent : event.isCallback = true) :
    (history ++ [event]).countP Event.isCallback = 1 := by
  rw [List.countP_append, h.count, List.countP_singleton, if_pos hevent]

/-- A return from `cancel` adds nothing that could be wrong. -/
theorem Sound.cancelled (h : Sound history) : Sound (history ++ [.cancelled]) where
  once := by
    rw [List.countP_append]
    exact h.once
  quiet := by
    refine List.pairwise_append.mpr ⟨h.quiet, List.pairwise_singleton _ _, ?_⟩
    intro earlier _ later hlater _
    rw [List.mem_singleton.mp hlater]
    decide

theorem Phase.sound (h : Phase s) : Sound s.history := by
  cases h with
  | fresh _ _ _ hhistory =>
    rw [hhistory]
    exact ⟨Nat.zero_le 1, List.Pairwise.nil⟩
  | attempting _ _ _ _ hhistory => exact hhistory.sound
  | waiting _ _ _ _ _ _ hhistory => exact hhistory.sound
  | finished hfinished => exact hfinished.sound

theorem detachAndClose_ok (hok : s.detachAndClose a = .ok t) :
    t = { s with conn.timerIdentifier := none }.detachFromPoller := by
  rw [State.detachAndClose] at hok
  split at hok
  · cases hok
  · cases hok
    rfl

theorem resetToNewSocketfd_ok (hok : s.resetToNewSocketfd a = .ok t) : t = s.detachFromPoller := by
  rw [State.resetToNewSocketfd] at hok
  split at hok
  · cases hok
  · split at hok
    · cases hok
    · cases hok
      rfl

theorem bind_ok {α β : Type} {x : Except Halt α} {f : α → Except Halt β} {b : β}
    (h : x >>= f = .ok b) : ∃ a, x = .ok a ∧ f a = .ok b := by
  cases x with
  | ok a => exact ⟨a, rfl, h⟩
  | error e => cases h

/-- What an attempt comes to. -/
inductive State.Tried (a : ConnectAnswers) (s t : State) : Prop
  | connected (ht : t = (s.record .connect).connected) : Tried a s t
  | waits (ht : t = { s.record .connect with
      conn.pollable := s.conn.pollable.enableWriteEvent }) : Tried a s t
  | retried (hok : (s.record .connect).scheduleRetry a = .ok t) : Tried a s t
  | failed (ht : t = (s.record .connect).runConnectFailCallback) : Tried a s t

theorem tried_of_tryOnce (hok : s.tryOnce a = .ok t) : s.Tried a t := by
  rw [State.tryOnce] at hok
  cases hanswer : a.connect with
  | success =>
    rw [hanswer] at hok
    cases hok
    exact .connected rfl
  | error errno =>
    rw [hanswer] at hok
    cases errno with
    | EINPROGRESS => cases hok; exact .waits rfl
    | EADDRINUSE => exact .retried hok
    | EADDRNOTAVAIL => exact .retried hok
    | EAGAIN => exact .retried hok
    | ECONNREFUSED => exact .retried hok
    | ENETUNREACH => exact .retried hok
    | other code => cases hok
    | EALREADY => cases hok; exact .failed rfl
    | EISCONN => cases hok; exact .failed rfl
    | EACCES => cases hok; exact .failed rfl
    | EPERM => cases hok; exact .failed rfl
    | EAFNOSUPPORT => cases hok; exact .failed rfl
    | EBADF => cases hok; exact .failed rfl
    | EFAULT => cases hok; exact .failed rfl
    | ENOTSOCK => cases hok; exact .failed rfl
    | EPROTOTYPE => cases hok; exact .failed rfl

/-- The retries are given up, or there is one more. -/
inductive State.Rescheduled (s t : State) : Prop
  | givenUp (hlast : s.conn.numberOfRetries ≥ s.conn.maxNumberOfRetries)
      (ht : t = ({ s with conn.timerIdentifier := none }.detachFromPoller).runConnectFailCallback) :
      Rescheduled s t
  | again (hmore : s.conn.numberOfRetries < s.conn.maxNumberOfRetries)
      (ht : t = { s with
        conn.numberOfRetries := s.conn.numberOfRetries + 1
        conn.currentRetryTimeInterval := TimeInterval.mul s.conn.currentRetryTimeInterval 2
        conn.timerIdentifier := some s.created
        conn.pollable := s.conn.pollable.detachFromPoller
        timers := ⟨s.created, min MAX_RETRY_TIME_INTERVAL s.conn.currentRetryTimeInterval⟩ ::
          s.timers
        created := s.created + 1 }) : Rescheduled s t

theorem rescheduled_of_scheduleRetry (hok : s.scheduleRetry a = .ok t) : s.Rescheduled t := by
  rw [State.scheduleRetry] at hok
  split at hok
  · rename_i hlast
    obtain ⟨u, hu, ht⟩ := bind_ok hok
    cases detachAndClose_ok hu
    cases ht
    exact .givenUp hlast rfl
  · rename_i hmore
    obtain ⟨u, hu, ht⟩ := bind_ok hok
    cases resetToNewSocketfd_ok hu
    cases ht
    exact .again (Int.not_le.mp hmore) rfl

section Callbacks

variable (hstarted : s.started = true) (hpolled : s.polled = false) (htimers : s.timers = [])
  (hexpired : s.expired = []) (hhistory : Untouched s.history)

include hstarted hpolled htimers hexpired hhistory

theorem finished_connectFail (hwriting : s.conn.pollable.isWriting = false) :
    Finished s.runConnectFailCallback := by
  rw [State.runConnectFailCallback]
  split
  · exact ⟨hstarted, ⟨hwriting, hpolled, htimers, hexpired⟩, hhistory.callback,
      fun _ => hhistory.count_callback rfl⟩
  · rename_i hnone
    exact ⟨hstarted, ⟨hwriting, hpolled, htimers, hexpired⟩, hhistory.sound,
      fun hfail => absurd hfail hnone⟩

/-- The retries are given up. -/
theorem finished_close :
    Finished ({ s with conn.timerIdentifier := none }.detachFromPoller).runConnectFailCallback :=
  finished_connectFail (s := { s with conn.timerIdentifier := none }.detachFromPoller) hstarted
    hpolled htimers hexpired hhistory (PollableFileDescriptor.detachFromPoller_isWriting _)

theorem finished_connected : Finished s.connected := by
  have hwriting : s.conn.pollable.detachFromPoller.isWriting = false :=
    PollableFileDescriptor.detachFromPoller_isWriting _
  exact ⟨hstarted, ⟨hwriting, hpolled, htimers, hexpired⟩, hhistory.callback,
    fun _ => hhistory.count_callback rfl⟩

theorem phase_scheduleRetry (hok : s.scheduleRetry a = .ok t) : Phase t := by
  have hwriting : s.conn.pollable.detachFromPoller.isWriting = false :=
    PollableFileDescriptor.detachFromPoller_isWriting _
  cases rescheduled_of_scheduleRetry hok with
  | givenUp _ ht =>
    rw [ht]
    exact .finished (finished_close hstarted hpolled htimers hexpired hhistory)
  | again _ ht =>
    rw [ht]
    refine .waiting hstarted hwriting hpolled
      ⟨s.created, min MAX_RETRY_TIME_INTERVAL s.conn.currentRetryTimeInterval⟩
      (.inl ⟨?_, hexpired⟩) rfl hhistory
    exact congrArg (List.cons _) htimers

/-- An attempt that meets nothing else leads to one of the four phases. -/
theorem phase_tryOnce (hwriting : s.conn.pollable.isWriting = false)
    (hok : s.tryOnce a = .ok t) : Phase t := by
  have hconnect := hhistory.connect
  cases tried_of_tryOnce hok with
  | connected ht =>
    rw [ht]
    exact .finished
      (finished_connected (s := s.record .connect) hstarted hpolled htimers hexpired hconnect)
  | waits ht =>
    rw [ht]
    exact .attempting hstarted (PollableFileDescriptor.enableWriteEvent_isWriting _) htimers
      hexpired hconnect
  | retried hok =>
    exact phase_scheduleRetry (s := s.record .connect) hstarted hpolled htimers hexpired hconnect
      hok
  | failed ht =>
    rw [ht]
    exact .finished (finished_connectFail (s := s.record .connect) hstarted hpolled htimers
      hexpired hconnect hwriting)

theorem phase_writeEventCallback (hok : s.writeEventCallback a = .ok t) : Phase t := by
  rw [State.writeEventCallback] at hok
  split at hok
  · cases hok
  · split at hok
    · cases hok
      exact .finished (finished_connected hstarted hpolled htimers hexpired hhistory)
    · exact phase_scheduleRetry hstarted hpolled htimers hexpired hhistory hok

end Callbacks

theorem Finished.cancelled (h : Finished s) : Finished (s.record .cancelled) where
  started := h.started
  idle := ⟨h.idle.writing, h.idle.polled, h.idle.timers, h.idle.expired⟩
  sound := h.sound.cancelled
  done hfail := by
    rw [← h.done hfail]
    exact List.countP_append.trans (Nat.add_zero _)

/-- A settled cancellation leaves nothing pending. -/
theorem phase_cancel (h : Phase s) (hsettled : CancelSettled s) (hok : s.cancel a = .ok t) :
    Finished t := by
  rw [State.cancel] at hok
  rw [CancelSettled] at hsettled
  cases hidentifier : s.conn.timerIdentifier with
  | none =>
    rw [hidentifier] at hok hsettled
    cases hok
    obtain ⟨hstarted, hwriting⟩ := hsettled
    cases h with
    | fresh hfresh => exact absurd hstarted (by simp [hfresh])
    | attempting _ hattempt => exact absurd hattempt (by simp [hwriting])
    | waiting _ _ _ timer _ hstored => exact absurd hstored (by simp [hidentifier])
    | finished hfinished => exact hfinished.cancelled
  | some identifier =>
    rw [hidentifier] at hok hsettled
    obtain ⟨hpolled, hexpired, hpending⟩ := hsettled
    obtain ⟨u, hu, ht⟩ := bind_ok hok
    cases detachAndClose_ok hu
    cases ht
    have hclose := fun htimers hnoneExpired hhistory hstarted =>
      (finished_close (s := { s with timers := s.timers.filter (·.identifier ≠ identifier) })
        hstarted hpolled htimers hnoneExpired hhistory).cancelled
    cases h with
    | fresh _ _ hnone => exact absurd hnone (by simp [hidentifier])
    | attempting hstarted _ htimers hnoneExpired hhistory =>
      exact hclose (congrArg (List.filter _) htimers) hnoneExpired hhistory hstarted
    | waiting hstarted _ _ timer htimers hstored hhistory =>
      have hsame : timer.identifier = identifier :=
        Option.some.inj (hstored.symm.trans hidentifier)
      cases htimers with
      | inl hcontained =>
        obtain ⟨htimers, hnoneExpired⟩ := hcontained
        refine hclose ((congrArg (List.filter _) htimers).trans ?_) hnoneExpired hhistory hstarted
        simp [hsame]
      | inr hmoved =>
        refine absurd hsame (hexpired timer ?_)
        rw [hmoved.2]
        exact List.mem_singleton_self timer
    | finished hfinished =>
      have hnone : s.conn.hasConnectFailCallback = false := by
        by_contra hfail
        cases hpending (by simpa using hfail) with
        | inl hcontained =>
          obtain ⟨timer, hmem, _⟩ := hcontained
          rw [hfinished.idle.timers] at hmem
          cases hmem
        | inr hattempt => exact absurd hattempt (by simp [hfinished.idle.writing])
      have hdone : Finished { s with
          conn.timerIdentifier := none
          conn.pollable := s.conn.pollable.detachFromPoller
          timers := s.timers.filter (·.identifier ≠ identifier) } :=
        ⟨hfinished.started, ⟨PollableFileDescriptor.detachFromPoller_isWriting _,
          hfinished.idle.polled, congrArg (List.filter _) hfinished.idle.timers,
          hfinished.idle.expired⟩, hfinished.sound, hfinished.done⟩
      have hquiet := hdone.cancelled
      simpa [State.runConnectFailCallback, State.detachFromPoller, hnone] using hquiet

/-- A timer that expires is still the only one. -/
theorem Phase.expire (h : Phase s) (due : RetryTimer → Bool) : Phase (s.expire due) := by
  have hnil : s.timers = [] → s.expired = [] →
      (s.expire due).timers = [] ∧ (s.expire due).expired = [] := by
    intro htimers hexpired
    simp [State.expire, htimers, hexpired]
  cases h with
  | fresh hstarted hnothing hnone hhistory =>
    obtain ⟨htimers, hexpired⟩ := hnil hnothing.timers hnothing.expired
    exact .fresh hstarted ⟨hnothing.writing, hnothing.polled, htimers, hexpired⟩ hnone hhistory
  | attempting hstarted hwriting hnoTimers hnoneExpired hhistory =>
    obtain ⟨htimers, hexpired⟩ := hnil hnoTimers hnoneExpired
    exact .attempting hstarted hwriting htimers hexpired hhistory
  | finished hfinished =>
    obtain ⟨htimers, hexpired⟩ := hnil hfinished.idle.timers hfinished.idle.expired
    exact .finished ⟨hfinished.started, ⟨hfinished.idle.writing, hfinished.idle.polled, htimers,
      hexpired⟩, hfinished.sound, hfinished.done⟩
  | waiting hstarted hwriting hpolled timer hpending hstored hhistory =>
    refine .waiting hstarted hwriting hpolled timer ?_ hstored hhistory
    cases hpending with
    | inl hcontained =>
      cases hdue : due timer with
      | true => exact .inr (by simp [State.expire, hcontained, hdue])
      | false => exact .inl (by simp [State.expire, hcontained, hdue])
    | inr hmoved => exact .inr (by simp [State.expire, hmoved])

theorem phase_step (h : Phase s) (hstep : Step CancelSettled s t) : Phase t := by
  cases hstep with
  | cancel a hsettled hok => exact .finished (phase_cancel h hsettled hok)
  | start a hidle hok =>
    cases h with
    | fresh _ hnothing _ hhistory =>
      rw [State.start] at hok
      split at hok
      · cases hok
      · refine phase_tryOnce (s := { s with started := true }) rfl hnothing.polled hnothing.timers
          hnothing.expired ?_ hnothing.writing hok
        intro event hevent
        rw [hhistory] at hevent
        cases hevent
    | attempting hstarted => exact absurd hstarted (by simp [hidle])
    | waiting hstarted => exact absurd hstarted (by simp [hidle])
    | finished hfinished => exact absurd hfinished.started (by simp [hidle])
  | poll hwriting =>
    cases h with
    | fresh _ hnothing => exact absurd hwriting (by simp [hnothing.writing])
    | attempting hstarted _ htimers hexpired hhistory =>
      exact .attempting hstarted hwriting htimers hexpired hhistory
    | waiting _ hquiet => exact absurd hwriting (by simp [hquiet])
    | finished hfinished => exact absurd hwriting (by simp [hfinished.idle.writing])
  | dispatch a hpolled hok =>
    cases h with
    | fresh _ hnothing => exact absurd hpolled (by simp [hnothing.polled])
    | attempting hstarted _ htimers hexpired hhistory =>
      exact phase_writeEventCallback (s := { s with polled := false }) hstarted rfl htimers
        hexpired hhistory hok
    | waiting _ _ hquiet => exact absurd hpolled (by simp [hquiet])
    | finished hfinished => exact absurd hpolled (by simp [hfinished.idle.polled])
  | expire due => exact h.expire due
  | fire a hexpired hok =>
    cases h with
    | fresh _ hnothing => exact absurd hexpired (by simp [hnothing.expired])
    | attempting _ _ _ hnoneExpired => exact absurd hexpired (by simp [hnoneExpired])
    | finished hfinished => exact absurd hexpired (by simp [hfinished.idle.expired])
    | waiting hstarted hwriting hpolled timer hpending hstored hhistory =>
      cases hpending with
      | inl hcontained => exact absurd hexpired (by simp [hcontained.2])
      | inr hmoved =>
        obtain ⟨htimers, hone⟩ := hmoved
        rw [hone] at hexpired
        cases hexpired
        exact phase_tryOnce (s := { s with expired := [] }) hstarted hpolled htimers rfl hhistory
          hwriting hok

theorem phase_initial (maxNumberOfRetries : Int) (hasNewConnectionCallback : Bool)
    (hasConnectFailCallback : Bool) :
    Phase (.initial (new maxNumberOfRetries hasNewConnectionCallback hasConnectFailCallback)) :=
  .fresh rfl ⟨rfl, rfl, rfl, rfl⟩ rfl rfl

/-- What comes behind a cancellation is neither a connection nor an attempt. -/
theorem Sound.behind {later : List Event} (h : Sound (history ++ [.cancelled] ++ later)) :
    .newConnection ∉ later ∧ .connect ∉ later := by
  have hlater : ∀ event ∈ later, event ≠ .newConnection ∧ event ≠ .connect := fun event hevent =>
    (List.pairwise_append.mp h.quiet).2.2 .cancelled (by simp) event hevent rfl
  exact ⟨fun hmem => (hlater _ hmem).1 rfl, fun hmem => (hlater _ hmem).2 rfl⟩

/-- The answers with which an attempt succeeds. -/
def reachable : ConnectAnswers := ⟨.success, some 0, false, false⟩

theorem cancel_none (hidentifier : s.conn.timerIdentifier = none) :
    s.cancel a = .ok (s.record .cancelled) := by
  rw [State.cancel, hidentifier]
  rfl

theorem cancel_some {identifier : Nat} (hidentifier : s.conn.timerIdentifier = some identifier) :
    ∃ t, s.cancel reachable = .ok t ∧ t.polled = s.polled ∧ t.expired = s.expired ∧
      t.history = (if s.conn.hasConnectFailCallback then s.history ++ [.connectFail]
        else s.history) ++ [.cancelled] := by
  rw [State.cancel, hidentifier]
  refine ⟨_, rfl, ?_⟩
  cases hfail : s.conn.hasConnectFailCallback with
  | true => simp [State.runConnectFailCallback, State.detachFromPoller, State.record, hfail]
  | false => simp [State.runConnectFailCallback, State.detachFromPoller, State.record, hfail]

/-- A write event that has been polled before the cancellation connects behind it. -/
theorem not_sound_of_polled (hpolled : s.polled = true) (hhistory : s.history =
    history ++ [.cancelled]) :
    ∃ t, Reaches (Step CancelSettled) s t ∧ ¬Sound t.history := by
  refine ⟨_, .single (.dispatch reachable hpolled rfl), fun hsound => ?_⟩
  have hlater : Sound (history ++ [.cancelled] ++ [.newConnection]) := hhistory ▸ hsound
  exact hlater.behind.1 (List.mem_singleton_self _)

/-- Without a timer a cancellation does nothing, and the socket goes on behind it. -/
theorem not_sound_of_no_timer (h : Phase s) (hregistered : s.conn.hasNewConnectionCallback = true)
    (hidentifier : s.conn.timerIdentifier = none) (hunsettled : ¬CancelSettled s) :
    ∃ t, Reaches (Step CancelSettled) (s.record .cancelled) t ∧ ¬Sound t.history := by
  rw [CancelSettled, hidentifier] at hunsettled
  cases h with
  | fresh hstarted _ _ hhistory =>
    -- it is started behind the cancellation
    have hstart : (s.record .cancelled).start reachable =
        .ok (({ s.record .cancelled with started := true }.record .connect).connected) := by
      rw [State.start, if_neg (by simp [State.record, hregistered])]
      rfl
    refine ⟨_, .single (.start reachable hstarted hstart), fun hsound => ?_⟩
    have hlater : Sound (s.history ++ [.cancelled] ++ [.connect, .newConnection]) := by
      simpa [State.connected, State.detachFromPoller, State.record] using hsound
    exact hlater.behind.2 List.mem_cons_self
  | attempting _ hwriting htimers hexpired hhistory =>
    -- it connects when its write event comes
    obtain ⟨u, hreach, hnot⟩ := @not_sound_of_polled
      { s.record .cancelled with polled := true } s.history rfl rfl
    exact ⟨u, hreach.head (.poll hwriting), hnot⟩
  | waiting _ _ _ timer _ hstored => exact absurd hstored (by simp [hidentifier])
  | finished hfinished => exact absurd ⟨hfinished.started, hfinished.idle.writing⟩ hunsettled

/-- With a timer a cancellation reports, and what has been under way already reports as well. -/
theorem not_sound_of_timer {identifier : Nat} (h : Phase s)
    (hidentifier : s.conn.timerIdentifier = some identifier) (hunsettled : ¬CancelSettled s)
    (hpolled : t.polled = s.polled) (hexpired : t.expired = s.expired)
    (hhistory : t.history = (if s.conn.hasConnectFailCallback then s.history ++ [.connectFail]
      else s.history) ++ [.cancelled]) :
    ∃ u, Reaches (Step CancelSettled) t u ∧ ¬Sound u.history := by
  rw [CancelSettled, hidentifier] at hunsettled
  cases h with
  | fresh _ _ hnone => exact absurd hnone (by simp [hidentifier])
  | attempting _ hwriting _ hnoneExpired _ =>
    have hevent : s.polled = true := by
      by_contra hnone
      exact hunsettled ⟨by simpa using hnone, by simp [hnoneExpired], fun _ => .inr hwriting⟩
    exact not_sound_of_polled (hpolled.trans hevent) hhistory
  | waiting _ _ hquiet timer hpending hstored _ =>
    have hsame : timer.identifier = identifier :=
      Option.some.inj (hstored.symm.trans hidentifier)
    cases hpending with
    | inl hcontained =>
      refine absurd ⟨hquiet, by simp [hcontained.2], fun _ => .inl ⟨timer, ?_, hsame⟩⟩ hunsettled
      rw [hcontained.1]
      exact List.mem_singleton_self timer
    | inr hmoved =>
      -- the pass that has moved the timer out goes on with it
      have hfire : Step CancelSettled t _ := .fire reachable (hexpired.trans hmoved.2) rfl
      refine ⟨_, .single hfire, fun hsound => ?_⟩
      obtain ⟨before, hbefore⟩ : ∃ before, t.history = before ++ [.cancelled] := ⟨_, hhistory⟩
      have hlater : Sound (before ++ [.cancelled] ++ [.connect, .newConnection]) := by
        simpa [State.connected, State.detachFromPoller, State.record, hbefore] using hsound
      exact hlater.behind.2 List.mem_cons_self
  | finished hfinished =>
    -- it reports a second time
    have hfail : s.conn.hasConnectFailCallback = true := by
      by_contra hnone
      exact hunsettled ⟨hfinished.idle.polled, by simp [hfinished.idle.expired],
        fun hfail => absurd hfail hnone⟩
    refine ⟨t, .refl, fun hsound => ?_⟩
    have honce := hsound.once
    rw [hhistory, if_pos hfail, List.countP_append, List.countP_append,
      hfinished.done hfail] at honce
    exact absurd honce (by decide)

/-- A cancellation that is not settled has a continuation in which the socket reports twice, or
goes on. -/
theorem cancel_settled_iff {maxNumberOfRetries : Int} {hasConnectFailCallback : Bool}
    (h : Reaches (Step CancelSettled)
      (.initial (new maxNumberOfRetries true hasConnectFailCallback)) s)
    (hregistered : s.conn.hasNewConnectionCallback = true) :
    CancelSettled s ↔ ∀ a t u, s.cancel a = .ok t → Reaches (Step CancelSettled) t u →
      Sound u.history := by
  have hphase : Phase s := h.invariant (phase_initial _ _ _) fun _ _ => phase_step
  constructor
  · intro hsettled a t u hcancel hreach
    have hphase' : Phase t := .finished (phase_cancel hphase hsettled hcancel)
    exact (hreach.invariant hphase' fun _ _ => phase_step).sound
  · intro hsound
    by_contra hunsettled
    cases hidentifier : s.conn.timerIdentifier with
    | none =>
      obtain ⟨u, hreach, hnot⟩ :=
        not_sound_of_no_timer hphase hregistered hidentifier hunsettled
      exact hnot (hsound reachable _ u (cancel_none hidentifier) hreach)
    | some identifier =>
      obtain ⟨t, hcancel, hpolled, hexpired, hhistory⟩ := cancel_some hidentifier
      obtain ⟨u, hreach, hnot⟩ :=
        not_sound_of_timer hphase hidentifier hunsettled hpolled hexpired hhistory
      exact hnot (hsound reachable t u hcancel hreach)

end XubinhServer.PreconnectSocketfd

import Mathlib.Algebra.Group.Int.Defs
import Mathlib.Data.List.Basic
import XubinhServer.PreconnectSocketfd.Cancel

/-! How often a socket tries to connect, and how long it waits in between. What is used of the
interval is capped, but what is stored is doubled with each retry and wraps. -/
namespace XubinhServer.PreconnectSocketfd

open Transition

/-- The delay of the retry behind `n` others, in exact integers. -/
def exactDelay (n : Nat) : Int := min MAX_RETRY_TIME_INTERVAL (INITIAL_RETRY_TIME_INTERVAL * 2 ^ n)

/-- The interval that is stored behind `n` retries. -/
def storedInterval (n : Nat) : Int := (INITIAL_RETRY_TIME_INTERVAL * 2 ^ n).bmod (2 ^ 64)

/-- At most one attempt more than there may be retries, and each retry timer, whether it waits or
expires, has the delay of its retry. The timers are numbered from zero. -/
structure BacksOff (maxNumberOfRetries : Int) (s : State) : Prop where
  attempts : s.history.count .connect ≤ maxNumberOfRetries + 1
  delays : ∀ timer ∈ s.timers ++ s.expired,
    timer.timeInterval = exactDelay timer.identifier ∧ 0 < timer.timeInterval

/-- Each timer comes from a retry, and each attempt from the start or from a timer. -/
structure Counted (maxNumberOfRetries : Int) (s : State) : Prop where
  maximum : s.conn.maxNumberOfRetries = maxNumberOfRetries
  retries : s.conn.numberOfRetries = s.created
  bounded : s.created ≤ maxNumberOfRetries
  interval : s.conn.currentRetryTimeInterval = storedInterval s.created
  timers : ∀ timer ∈ s.timers ++ s.expired, timer.identifier < s.created ∧
    timer.timeInterval = min MAX_RETRY_TIME_INTERVAL (storedInterval timer.identifier)
  attempts : s.history.count .connect + (s.timers.length + s.expired.length) ≤
    s.created + s.started.toNat

variable {s t : State} {a : ConnectAnswers} {maxNumberOfRetries : Int} {n : Nat}
  {allowed : State → Prop}

theorem storedInterval_succ (n : Nat) :
    TimeInterval.mul (storedInterval n) 2 = storedInterval (n + 1) := by
  rw [TimeInterval.mul, storedInterval, Int.bmod_mul_bmod, Int.mul_assoc, ← Int.pow_succ]
  rfl

theorem exactDelay_pos (n : Nat) : 0 < exactDelay n := by
  have hpow : (0 : Int) < 2 ^ n := Int.pow_pos (by decide)
  exact Int.lt_min.mpr ⟨by decide, Int.mul_pos (by decide) hpow⟩

theorem storedInterval_zero : storedInterval 0 = INITIAL_RETRY_TIME_INTERVAL := by
  decide

/-- The first thirty-five intervals do not wrap. -/
theorem storedInterval_of_lt (h : n < 35) :
    storedInterval n = INITIAL_RETRY_TIME_INTERVAL * 2 ^ n := by
  revert n
  decide

theorem storedInterval_thirtyFive : storedInterval 35 = -1266874889709551616 := by
  decide

/-- Something that neither connects nor touches the timers changes no number. -/
theorem Counted.congr (h : Counted maxNumberOfRetries s) (hconn : t.conn.maxNumberOfRetries =
      s.conn.maxNumberOfRetries ∧ t.conn.numberOfRetries = s.conn.numberOfRetries ∧
      t.conn.currentRetryTimeInterval = s.conn.currentRetryTimeInterval)
    (hcreated : t.created = s.created)
    (htimers : t.timers ++ t.expired ⊆ s.timers ++ s.expired)
    (hattempts : t.history.count .connect + (t.timers.length + t.expired.length) ≤
      t.created + t.started.toNat) : Counted maxNumberOfRetries t := by
  obtain ⟨hmaximum, hretries, hinterval⟩ := hconn
  refine ⟨hmaximum.trans h.maximum, ?_, ?_, ?_, ?_, hattempts⟩
  · rw [hretries, hcreated]
    exact h.retries
  · rw [hcreated]
    exact h.bounded
  · rw [hinterval, hcreated]
    exact h.interval
  · intro timer hmem
    rw [hcreated]
    exact h.timers timer (htimers hmem)

theorem Counted.record (h : Counted maxNumberOfRetries s) {event : Event}
    (hevent : event ≠ .connect) : Counted maxNumberOfRetries (s.record event) := by
  refine h.congr ⟨rfl, rfl, rfl⟩ rfl (List.Subset.refl _) ?_
  have hcount : (s.record event).history.count .connect = s.history.count .connect := by
    simp [State.record, hevent]
  rw [hcount]
  exact h.attempts

theorem Counted.report (h : Counted maxNumberOfRetries s) :
    Counted maxNumberOfRetries s.runConnectFailCallback := by
  rw [State.runConnectFailCallback]
  split
  · exact h.record (by decide)
  · exact h

theorem Counted.connected (h : Counted maxNumberOfRetries s) :
    Counted maxNumberOfRetries s.connected := by
  have hdetached : Counted maxNumberOfRetries s.detachFromPoller :=
    h.congr ⟨rfl, rfl, rfl⟩ rfl (List.Subset.refl _) h.attempts
  exact hdetached.record (by decide)

theorem Counted.scheduleRetry (h : Counted maxNumberOfRetries s)
    (hok : s.scheduleRetry a = .ok t) : Counted maxNumberOfRetries t := by
  cases rescheduled_of_scheduleRetry hok with
  | givenUp _ ht =>
    rw [ht]
    have hclosed : Counted maxNumberOfRetries
        ({ s with conn.timerIdentifier := none }.detachFromPoller) :=
      h.congr ⟨rfl, rfl, rfl⟩ rfl (List.Subset.refl _) h.attempts
    exact hclosed.report
  | again hmore ht =>
    subst ht
    have hretries := h.retries
    have hmaximum := h.maximum
    refine ⟨hmaximum, ?_, ?_, ?_, fun timer hmem => ?_, ?_⟩
    · push_cast
      exact congrArg (· + 1) hretries
    · push_cast
      omega
    · have hinterval := congrArg (TimeInterval.mul · 2) h.interval
      exact hinterval.trans (storedInterval_succ s.created)
    · rw [List.cons_append] at hmem
      cases List.mem_cons.mp hmem with
      | inl hnew =>
        rw [hnew, h.interval]
        exact ⟨Nat.lt_succ_self _, rfl⟩
      | inr hold =>
        obtain ⟨hlt, hdelay⟩ := h.timers timer hold
        exact ⟨Nat.lt_succ_of_lt hlt, hdelay⟩
    · have hattempts := h.attempts
      simp only [List.length_cons]
      omega

/-- An attempt uses up the start or a timer. -/
theorem Counted.tryOnce (h : Counted maxNumberOfRetries s)
    (howed : s.history.count .connect + (s.timers.length + s.expired.length) <
      s.created + s.started.toNat)
    (hok : s.tryOnce a = .ok t) : Counted maxNumberOfRetries t := by
  have hbegun : Counted maxNumberOfRetries (s.record .connect) := by
    refine h.congr ⟨rfl, rfl, rfl⟩ rfl (List.Subset.refl _) ?_
    have hcount : (s.record .connect).history.count .connect = s.history.count .connect + 1 := by
      simp [State.record]
    rw [hcount]
    simp only [State.record]
    omega
  cases tried_of_tryOnce hok with
  | connected ht =>
    rw [ht]
    exact hbegun.connected
  | waits ht =>
    rw [ht]
    exact hbegun.congr ⟨rfl, rfl, rfl⟩ rfl (List.Subset.refl _) hbegun.attempts
  | retried hok => exact hbegun.scheduleRetry hok
  | failed ht =>
    rw [ht]
    exact hbegun.report

theorem Counted.cancel (h : Counted maxNumberOfRetries s) (hok : s.cancel a = .ok t) :
    Counted maxNumberOfRetries t := by
  rw [State.cancel] at hok
  cases hidentifier : s.conn.timerIdentifier with
  | none =>
    rw [hidentifier] at hok
    cases hok
    exact h.record (by decide)
  | some identifier =>
    rw [hidentifier] at hok
    obtain ⟨u, hu, ht⟩ := bind_ok hok
    cases detachAndClose_ok hu
    cases ht
    refine Counted.record (Counted.report ?_) (by decide)
    have hlength : (s.timers.filter (·.identifier ≠ identifier)).length ≤ s.timers.length :=
      List.length_filter_le _ _
    refine h.congr ⟨rfl, rfl, rfl⟩ rfl ?_ ?_
    · exact List.append_subset.mpr ⟨List.subset_append_of_subset_left _ (List.filter_subset_self _),
        List.subset_append_right _ _⟩
    · have hattempts := h.attempts
      simp only [State.detachFromPoller]
      omega

theorem Counted.expire (h : Counted maxNumberOfRetries s) (due : RetryTimer → Bool) :
    Counted maxNumberOfRetries (s.expire due) := by
  refine h.congr ⟨rfl, rfl, rfl⟩ rfl (fun timer hmem => ?_) ?_
  · simp only [State.expire, List.mem_append, List.mem_filter] at hmem ⊢
    tauto
  · have hattempts := h.attempts
    have hsplit : (s.timers.filter due).length + (s.timers.filter (!due ·)).length =
        s.timers.length := (List.length_eq_length_filter_add due).symm
    simp only [State.expire, List.length_append]
    omega

theorem counted_step (h : Counted maxNumberOfRetries s) (hstep : Step allowed s t) :
    Counted maxNumberOfRetries t := by
  have hattempts := h.attempts
  cases hstep with
  | cancel a _ hok => exact h.cancel hok
  | expire due => exact h.expire due
  | poll _ => exact h.congr ⟨rfl, rfl, rfl⟩ rfl (List.Subset.refl _) hattempts
  | start a hidle hok =>
    rw [State.start] at hok
    split at hok
    · cases hok
    · have howed : s.history.count .connect + (s.timers.length + s.expired.length) <
          s.created + true.toNat := by
        rw [hidle] at hattempts
        exact Nat.lt_succ_of_le hattempts
      have hstarted : Counted maxNumberOfRetries { s with started := true } :=
        h.congr ⟨rfl, rfl, rfl⟩ rfl (List.Subset.refl _) (Nat.le_of_lt howed)
      exact hstarted.tryOnce howed hok
  | dispatch a _ hok =>
    have hpolled : Counted maxNumberOfRetries { s with polled := false } :=
      h.congr ⟨rfl, rfl, rfl⟩ rfl (List.Subset.refl _) hattempts
    rw [State.writeEventCallback] at hok
    split at hok
    · cases hok
    · split at hok
      · cases hok
        exact hpolled.connected
      · exact hpolled.scheduleRetry hok
  | @fire _ a timer rest hexpired hok =>
    have howed : s.history.count .connect + (s.timers.length + rest.length) <
        s.created + s.started.toNat := by
      rw [hexpired, List.length_cons] at hattempts
      omega
    have hmoved : Counted maxNumberOfRetries { s with expired := rest } := by
      refine h.congr ⟨rfl, rfl, rfl⟩ rfl ?_ (Nat.le_of_lt howed)
      rw [hexpired]
      exact List.append_subset.mpr ⟨List.subset_append_left _ _,
        List.subset_append_of_subset_right _ (List.subset_cons_self _ _)⟩
    exact hmoved.tryOnce howed hok

theorem counted_initial (hmaximum : 0 ≤ maxNumberOfRetries)
    (hasNewConnectionCallback hasConnectFailCallback : Bool) :
    Counted maxNumberOfRetries (.initial
      (new maxNumberOfRetries hasNewConnectionCallback hasConnectFailCallback)) where
  maximum := rfl
  retries := rfl
  bounded := hmaximum
  interval := storedInterval_zero.symm
  timers := by
    intro timer hmem
    cases hmem
  attempts := Nat.le_refl 0

theorem Counted.attempts_le (h : Counted maxNumberOfRetries s) :
    s.history.count .connect ≤ maxNumberOfRetries + 1 := by
  have hattempts := h.attempts
  have hbounded := h.bounded
  have hstarted := Bool.toNat_le s.started
  omega

/-- With no more than thirty-five retries no interval that is used has wrapped. -/
theorem Counted.backsOff (h : Counted maxNumberOfRetries s) (hmaximum : maxNumberOfRetries ≤ 35) :
    BacksOff maxNumberOfRetries s := by
  have hbounded := h.bounded
  refine ⟨h.attempts_le, fun timer hmem => ?_⟩
  obtain ⟨hlt, hdelay⟩ := h.timers timer hmem
  rw [storedInterval_of_lt (by omega)] at hdelay
  rw [hdelay]
  exact ⟨rfl, exactDelay_pos timer.identifier⟩

/-- The answers with which an attempt is refused at once. -/
def refused : ConnectAnswers := ⟨.error .ECONNREFUSED, some 0, false, false⟩

theorem tryOnce_refused (hmore : s.conn.numberOfRetries < s.conn.maxNumberOfRetries) :
    ∃ t, s.tryOnce refused = .ok t ∧ t.created = s.created + 1 ∧ t.expired = s.expired ∧
      ∃ delay, t.timers = ⟨s.created, delay⟩ :: s.timers := by
  have hnot : ¬(s.record .connect).conn.numberOfRetries ≥
      (s.record .connect).conn.maxNumberOfRetries := Int.not_le.mpr hmore
  have htry : s.tryOnce refused = (s.record .connect).scheduleRetry refused := rfl
  rw [htry, State.scheduleRetry, if_neg hnot]
  exact ⟨_, rfl, rfl, rfl, _, rfl⟩

/-- All attempts are refused, up to the one that the retry `n` makes. -/
theorem exists_retry (allowed : State → Prop) (hasConnectFailCallback : Bool)
    (hn : (n : Int) < maxNumberOfRetries) :
    ∃ s, Reaches (Step allowed)
        (.initial (new maxNumberOfRetries true hasConnectFailCallback)) s ∧
      s.created = n + 1 ∧ s.expired = [] ∧ ∃ delay, s.timers = [⟨n, delay⟩] := by
  induction n with
  | zero =>
    let idle : State := .initial (new maxNumberOfRetries true hasConnectFailCallback)
    obtain ⟨t, hok, hcreated, hexpired, htimers⟩ :=
      tryOnce_refused (s := { idle with started := true }) hn
    exact ⟨t, .single (.start refused rfl hok), hcreated, hexpired, htimers⟩
  | succ n ih =>
    obtain ⟨s, hreach, hcreated, hexpired, delay, htimers⟩ := ih (by omega)
    have hcounted : Counted maxNumberOfRetries s :=
      hreach.invariant (counted_initial (by omega) true hasConnectFailCallback)
        fun _ _ => counted_step
    have hretries := hcounted.retries
    have hmore : s.conn.numberOfRetries < s.conn.maxNumberOfRetries := by
      rw [hcounted.maximum, hretries, hcreated]
      exact hn
    obtain ⟨t, hok, hcreated', hexpired', delay', htimers'⟩ :=
      tryOnce_refused (s := { s with timers := [], expired := [] }) hmore
    have hdue : s.expire (fun _ => true) =
        { s with timers := [], expired := [⟨n, delay⟩] } := by
      simp [State.expire, hexpired, htimers]
    have hstep : Step allowed s { s with timers := [], expired := [⟨n, delay⟩] } :=
      hdue ▸ .expire fun _ => true
    refine ⟨t, (hreach.tail hstep).tail (.fire refused rfl hok), ?_, hexpired', delay', ?_⟩
    · rw [hcreated', hcreated]
    · rw [htimers', hcreated]

/-- However many retries there may be, no more attempts are made. -/
theorem attempts_le_of_reaches (hmaximum : 0 ≤ maxNumberOfRetries)
    (hasNewConnectionCallback hasConnectFailCallback : Bool)
    (hreach : Reaches (Step allowed)
      (.initial (new maxNumberOfRetries hasNewConnectionCallback hasConnectFailCallback)) s) :
    s.history.count .connect ≤ maxNumberOfRetries + 1 := by
  have hcounted : Counted maxNumberOfRetries s :=
    hreach.invariant (counted_initial hmaximum _ _) fun _ _ => counted_step
  exact hcounted.attempts_le

/-- The thirty-sixth interval has wrapped to a negative one, which is not capped. -/
theorem not_backsOff_of_thirtySix (allowed : State → Prop) (hmaximum : 36 ≤ maxNumberOfRetries)
    (hasConnectFailCallback : Bool) :
    ∃ s, Reaches (Step allowed)
      (.initial (new maxNumberOfRetries true hasConnectFailCallback)) s ∧
      ¬BacksOff maxNumberOfRetries s := by
  have hmore : ((35 : Nat) : Int) < maxNumberOfRetries := by omega
  have hpositive : 0 ≤ maxNumberOfRetries := by omega
  obtain ⟨s, hreach, _, _, delay, htimers⟩ := exists_retry allowed hasConnectFailCallback hmore
  have hcounted : Counted maxNumberOfRetries s :=
    hreach.invariant (counted_initial hpositive true hasConnectFailCallback)
      fun _ _ => counted_step
  refine ⟨s, hreach, fun hbacksOff => ?_⟩
  have hmem : (⟨35, delay⟩ : RetryTimer) ∈ s.timers ++ s.expired := by
    rw [htimers]
    exact List.mem_cons_self
  have hpos : 0 < delay := (hbacksOff.delays _ hmem).2
  have hdelay : delay = min MAX_RETRY_TIME_INTERVAL (storedInterval 35) :=
    (hcounted.timers _ hmem).2
  rw [hdelay, storedInterval_thirtyFive] at hpos
  exact absurd hpos (by decide)

/-- The delays are the ones of exact integers, in every run, as long as there may be no more than
thirty-five retries. -/
theorem backsOff_iff (hmaximum : 0 ≤ maxNumberOfRetries) :
    (∀ (hasNewConnectionCallback hasConnectFailCallback : Bool) (s : State),
      Reaches (Step allowed)
        (.initial (new maxNumberOfRetries hasNewConnectionCallback hasConnectFailCallback)) s →
      BacksOff maxNumberOfRetries s) ↔ maxNumberOfRetries ≤ 35 := by
  constructor
  · intro hbacksOff
    by_contra hmany
    obtain ⟨s, hreach, hnot⟩ := not_backsOff_of_thirtySix allowed (Int.not_le.mp hmany) true
    exact hnot (hbacksOff true true s hreach)
  · intro hfew hasNewConnectionCallback hasConnectFailCallback s hreach
    have hcounted : Counted maxNumberOfRetries s :=
      hreach.invariant (counted_initial hmaximum _ _) fun _ _ => counted_step
    exact hcounted.backsOff hfew

/-- The default number of retries. -/
theorem backsOff_iff_five : (0 : Int) ≤ 5 ∧
    ∀ (hasNewConnectionCallback hasConnectFailCallback : Bool) (s : State),
      Reaches (Step fun _ => True)
        (.initial (new 5 hasNewConnectionCallback hasConnectFailCallback)) s → BacksOff 5 s :=
  ⟨by decide, (backsOff_iff (by decide)).mpr (by decide)⟩

/-- Thirty-six retries are one too many. -/
theorem not_backsOff : ¬∀ (maxNumberOfRetries : Int), 0 ≤ maxNumberOfRetries →
    ∀ (hasNewConnectionCallback hasConnectFailCallback : Bool) (s : State),
      Reaches (Step fun _ => True)
        (.initial (new maxNumberOfRetries hasNewConnectionCallback hasConnectFailCallback)) s →
      BacksOff maxNumberOfRetries s := by
  intro hbacksOff
  obtain ⟨s, hreach, hnot⟩ :=
    not_backsOff_of_thirtySix (fun _ => True) (Int.le_refl 36) true
  exact hnot (hbacksOff 36 (by decide) true true s hreach)

end XubinhServer.PreconnectSocketfd

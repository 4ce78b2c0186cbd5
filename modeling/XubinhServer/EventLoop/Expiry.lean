import Mathlib.Data.Int.DivMod
import Mathlib.Logic.Function.Iterate
import Mathlib.Tactic.Linarith
import Mathlib.Tactic.Ring
import XubinhServer.EventLoop.Timers
import XubinhServer.Lib.Loop

/-! `expire_once` and `expire_until` with the callback they call. Time points are 64-bit numbers,
and their sums wrap. -/
namespace XubinhServer

namespace TimePoint

/-- The time points that `int64_t` holds. -/
def InRange (t : Int) : Prop := -2 ^ 63 ≤ t ∧ t < 2 ^ 63

/-- `+=` on 64 bits. -/
def add (timePoint timeInterval : Int) : Int := (timePoint + timeInterval).bmod (2 ^ 64)

theorem bmod_of_inRange {t : Int} (h : InRange t) : t.bmod (2 ^ 64) = t := by
  obtain ⟨hlow, hhigh⟩ := h
  exact Int.bmod_eq_of_le (by omega) (by omega)

theorem add_of_inRange {t i : Int} (h : InRange (t + i)) : add t i = t + i := bmod_of_inRange h

end TimePoint

namespace Timer

variable {σ : Type}

/-- The callback, and whether the timer is still valid after it. -/
def expireOnce (callback : σ → σ) (timer : Timer) (s : σ) : Bool × Timer × σ :=
  let s := callback s
  if timer.repetitionTimeInterval = 0 ∨ timer.numberOfRepetitionsLeft = 0 then (false, timer, s)
  else
    (true, { timer with
      expirationTimePoint :=
        TimePoint.add timer.expirationTimePoint timer.repetitionTimeInterval
      numberOfRepetitionsLeft :=
        if timer.numberOfRepetitionsLeft > 0 then timer.numberOfRepetitionsLeft - 1
        else timer.numberOfRepetitionsLeft }, s)

/-- One round of the loop. -/
def expireRound (callback : σ → σ) (timePoint : Int) (s : Timer × σ) :
    (Timer × σ) ⊕ (Bool × Timer × σ) :=
  let (isStillValid, timer, t) := expireOnce callback s.1 s.2
  if !isStillValid || timer.expirationTimePoint > timePoint then .inr (isStillValid, timer, t)
  else .inl (timer, t)

/-- `expire_until`, in a bounded number of rounds. -/
def expireUntil (callback : σ → σ) (timePoint : Int) (rounds : Nat) (timer : Timer) (s : σ) :
    Option (Bool × Timer × σ) :=
  Loop.run (expireRound callback timePoint) rounds (timer, s)

section Rounds

variable {callback : σ → σ} {timePoint : Int} {timer : Timer} {s : σ}

/-- `k` expirations later. -/
def later (timer : Timer) (k : Nat) : Timer := { timer with
  expirationTimePoint := timer.expirationTimePoint + k * timer.repetitionTimeInterval
  numberOfRepetitionsLeft :=
    if timer.numberOfRepetitionsLeft > 0 then timer.numberOfRepetitionsLeft - k
    else timer.numberOfRepetitionsLeft }

@[simp] theorem later_zero (timer : Timer) : timer.later 0 = timer := by
  simp [later]

/-- A timer of which the repetitions are not used up. -/
structure Repeats (timer : Timer) (k : Nat) : Prop where
  interval : 0 < timer.repetitionTimeInterval
  repetitions : timer.numberOfRepetitionsLeft = -1 ∨ (k : Int) ≤ timer.numberOfRepetitionsLeft

theorem Repeats.later_one {k : Nat} (h : timer.Repeats (k + 1)) : (timer.later 1).Repeats k := by
  refine ⟨h.interval, ?_⟩
  have hrepetitions := h.repetitions
  simp only [later]
  split
  · omega
  · omega

theorem later_later {k : Nat} (h : timer.Repeats (k + 1)) :
    (timer.later 1).later k = timer.later (k + 1) := by
  have hrepetitions := h.repetitions
  have htime : timer.expirationTimePoint + (1 : Nat) * timer.repetitionTimeInterval +
      k * timer.repetitionTimeInterval =
      timer.expirationTimePoint + ((k + 1 : Nat) : Int) * timer.repetitionTimeInterval := by
    push_cast
    ring
  simp only [later, Timer.mk.injEq, true_and]
  refine ⟨htime, ?_⟩
  split
  · split
    · push_cast
      omega
    · push_cast
      omega
  · rfl

/-- An expiration of a timer that repeats once more. -/
theorem expireOnce_repeats {k : Nat} (h : timer.Repeats (k + 1))
    (hrange : TimePoint.InRange (timer.expirationTimePoint + timer.repetitionTimeInterval)) :
    timer.expireOnce callback s = (true, timer.later 1, callback s) := by
  have hinterval := h.interval
  have hrepetitions := h.repetitions
  rw [expireOnce, if_neg (by omega), TimePoint.add_of_inRange hrange]
  simp [later]

/-- The last expiration of a timer. -/
theorem expireOnce_last
    (h : timer.repetitionTimeInterval = 0 ∨ timer.numberOfRepetitionsLeft = 0) :
    timer.expireOnce callback s = (false, timer, callback s) := if_pos h

/-- Where the sum does not wrap, this is what `afterCallback` says. -/
theorem expireOnce_eq_afterCallback
    (hrange : TimePoint.InRange (timer.expirationTimePoint + timer.repetitionTimeInterval)) :
    timer.expireOnce callback s =
      match timer.afterCallback with
      | none => (false, timer, callback s)
      | some next => (true, next, callback s) := by
  rw [expireOnce, afterCallback, TimePoint.add_of_inRange hrange]
  split
  · rfl
  · rfl

theorem expireUntil_last
    (h : timer.repetitionTimeInterval = 0 ∨ timer.numberOfRepetitionsLeft = 0) :
    timer.expireUntil callback timePoint 1 s = some (false, timer, callback s) := by
  refine Loop.run_leaves ?_
  rw [expireRound, expireOnce_last h]
  rfl

/-- The rounds up to the first expiration after the time point. -/
theorem expireUntil_repeats (k : Nat) (h : timer.Repeats (k + 1))
    (hlow : -2 ^ 63 ≤ timer.expirationTimePoint)
    (hdue : timer.expirationTimePoint + k * timer.repetitionTimeInterval ≤ timePoint)
    (hnext : timePoint <
      timer.expirationTimePoint + (k + 1) * timer.repetitionTimeInterval)
    (hrange : timePoint + timer.repetitionTimeInterval < 2 ^ 63) :
    timer.expireUntil callback timePoint (k + 1) s =
      some (true, timer.later (k + 1), callback^[k + 1] s) := by
  have hinterval := h.interval
  induction k generalizing timer s with
  | zero =>
    simp only [Nat.cast_zero, zero_mul, add_zero, zero_add, one_mul] at hdue hnext
    refine Loop.run_leaves ?_
    rw [expireRound, expireOnce_repeats h ⟨by omega, by omega⟩]
    have hlater : (timer.later 1).expirationTimePoint > timePoint := by
      simp only [later, Nat.cast_one, one_mul]
      omega
    simp [hlater]
  | succ k ih =>
    have hone : (timer.later 1).expirationTimePoint =
        timer.expirationTimePoint + timer.repetitionTimeInterval := by
      simp [later]
    have hk : 0 ≤ (k : Int) * timer.repetitionTimeInterval :=
      Int.mul_nonneg (by omega) (by omega)
    push_cast at hdue hnext
    have hround : expireRound callback timePoint (timer, s) =
        .inl (timer.later 1, callback s) := by
      rw [expireRound, expireOnce_repeats h ⟨by omega, by linarith⟩]
      have hnot : ¬(timer.later 1).expirationTimePoint > timePoint := by
        rw [hone]
        linarith
      simp [hnot]
    rw [expireUntil, Loop.run_goes_on hround, ← later_later h, Function.iterate_succ_apply]
    refine ih h.later_one ?_ ?_ ?_ hrange hinterval
    · rw [hone]
      omega
    · rw [hone]
      change _ + (k : Int) * timer.repetitionTimeInterval ≤ _
      linarith
    · rw [hone]
      change _ < _ + ((k : Int) + 1) * timer.repetitionTimeInterval
      linarith

/-- The rounds of a timer whose repetitions are used up before the time point. -/
theorem expireUntil_usedUp (n : Nat) (hinterval : 0 < timer.repetitionTimeInterval)
    (hn : timer.numberOfRepetitionsLeft = n) (hlow : -2 ^ 63 ≤ timer.expirationTimePoint)
    (hdue : timer.expirationTimePoint + n * timer.repetitionTimeInterval ≤ timePoint)
    (hrange : timePoint + timer.repetitionTimeInterval < 2 ^ 63) :
    timer.expireUntil callback timePoint (n + 1) s =
      some (false, timer.later n, callback^[n + 1] s) := by
  induction n generalizing timer s with
  | zero =>
    rw [later_zero]
    exact expireUntil_last (.inr hn)
  | succ n ih =>
    have hrepeats : timer.Repeats (n + 1) := ⟨hinterval, .inr (by omega)⟩
    have hone : (timer.later 1).expirationTimePoint =
        timer.expirationTimePoint + timer.repetitionTimeInterval := by
      simp [later]
    have hk : 0 ≤ (n : Int) * timer.repetitionTimeInterval :=
      Int.mul_nonneg (by omega) (by omega)
    push_cast at hdue
    have hround : expireRound callback timePoint (timer, s) =
        .inl (timer.later 1, callback s) := by
      rw [expireRound, expireOnce_repeats hrepeats ⟨by omega, by linarith⟩]
      have hnot : ¬(timer.later 1).expirationTimePoint > timePoint := by
        rw [hone]
        linarith
      simp [hnot]
    rw [expireUntil, Loop.run_goes_on hround, ← later_later hrepeats,
      Function.iterate_succ_apply]
    refine ih hinterval ?_ ?_ ?_ hrange
    · simp only [later, hn]
      rw [if_pos (by omega)]
      push_cast
      ring
    · rw [hone]
      omega
    · rw [hone]
      change _ + (n : Int) * timer.repetitionTimeInterval ≤ _
      linarith

theorem later_expirationTimePoint {m : Int} (hm : 0 ≤ m) (timer : Timer) :
    (timer.later m.toNat).expirationTimePoint =
      timer.expirationTimePoint + m * timer.repetitionTimeInterval := by
  change _ + ((m.toNat : Nat) : Int) * _ = _
  rw [Int.toNat_of_nonneg hm]

theorem later_numberOfRepetitionsLeft {m : Int} (hm : 0 ≤ m) (timer : Timer) :
    (timer.later m.toNat).numberOfRepetitionsLeft =
      if 0 < timer.numberOfRepetitionsLeft then timer.numberOfRepetitionsLeft - m
      else timer.numberOfRepetitionsLeft := by
  change (if 0 < timer.numberOfRepetitionsLeft then
    timer.numberOfRepetitionsLeft - ((m.toNat : Nat) : Int) else _) = _
  rw [Int.toNat_of_nonneg hm]

/-- The interval that the time point lies in, counted from the expiration. -/
theorem expirations_bounds {e r : Int} (hr : 0 < r) (hle : e ≤ timePoint) :
    0 ≤ (timePoint - e) / r ∧ e + (timePoint - e) / r * r ≤ timePoint ∧
      timePoint < e + ((timePoint - e) / r + 1) * r := by
  have hdiv := Int.ediv_mul_add_emod (timePoint - e) r
  have hmod := Int.emod_nonneg (timePoint - e) (ne_of_gt hr)
  have hlt := Int.emod_lt_of_pos (timePoint - e) hr
  refine ⟨Int.ediv_nonneg (by omega) (by omega), by linarith, ?_⟩
  rw [Int.add_mul, one_mul]
  linarith

end Rounds

/-- `expire_until` returns. It calls the callback once for a timer that does not repeat; and
otherwise once for each of the `m` expirations up to the time point, or until the repetitions are
used up. -/
theorem expireUntil_expirations (timer : Timer) (callback : σ → σ) (s : σ) (timePoint : Int)
    (hinterval : 0 ≤ timer.repetitionTimeInterval)
    (hrepetitions : -1 ≤ timer.numberOfRepetitionsLeft)
    (hlow : -2 ^ 63 ≤ timer.expirationTimePoint) (hdue : timer.expirationTimePoint ≤ timePoint)
    (hrange : timePoint + timer.repetitionTimeInterval < 2 ^ 63) :
    ∃ rounds isStillValid after t,
      timer.expireUntil callback timePoint rounds s = some (isStillValid, after, t) ∧
      ((timer.repetitionTimeInterval = 0 ∨ timer.numberOfRepetitionsLeft = 0) →
        isStillValid = false ∧ t = callback s) ∧
      (timer.repetitionTimeInterval ≠ 0 → timer.numberOfRepetitionsLeft ≠ 0 →
        ∀ m : Int, m = (timePoint - timer.expirationTimePoint) / timer.repetitionTimeInterval + 1 →
          ((timer.numberOfRepetitionsLeft = -1 ∨ m ≤ timer.numberOfRepetitionsLeft) →
            isStillValid = true ∧ t = callback^[m.toNat] s ∧
            after.expirationTimePoint =
              timer.expirationTimePoint + m * timer.repetitionTimeInterval ∧
            timePoint < after.expirationTimePoint ∧
            after.numberOfRepetitionsLeft =
              if 0 < timer.numberOfRepetitionsLeft then timer.numberOfRepetitionsLeft - m
              else timer.numberOfRepetitionsLeft) ∧
          (¬(timer.numberOfRepetitionsLeft = -1 ∨ m ≤ timer.numberOfRepetitionsLeft) →
            isStillValid = false ∧
            t = callback^[(timer.numberOfRepetitionsLeft + 1).toNat] s)) := by
  by_cases hlast : timer.repetitionTimeInterval = 0 ∨ timer.numberOfRepetitionsLeft = 0
  · refine ⟨1, false, timer, callback s, expireUntil_last hlast, fun _ => ⟨rfl, rfl⟩, ?_⟩
    intro hinterval' hrepetitions'
    cases hlast with
    | inl hzero => exact absurd hzero hinterval'
    | inr hzero => exact absurd hzero hrepetitions'
  · have hpos : 0 < timer.repetitionTimeInterval := by omega
    obtain ⟨hnonneg, hbefore, hafter⟩ := expirations_bounds hpos hdue
    obtain ⟨k, hk⟩ := Int.eq_ofNat_of_zero_le hnonneg
    rw [hk] at hbefore hafter
    have hm : ((k : Int) + 1).toNat = k + 1 := by omega
    by_cases hleft : timer.numberOfRepetitionsLeft = -1 ∨
        (k : Int) + 1 ≤ timer.numberOfRepetitionsLeft
    · have hrun := @expireUntil_repeats σ callback timePoint timer s k ⟨hpos, by omega⟩ hlow
        hbefore hafter hrange
      refine ⟨_, _, _, _, hrun, fun hcontra => absurd hcontra hlast, ?_⟩
      intro _ _ m hmdef
      rw [hk] at hmdef
      subst hmdef
      refine ⟨fun _ => ⟨rfl, by rw [hm], ?_, ?_, ?_⟩, fun hnot => absurd hleft hnot⟩
      · rw [← hm, later_expirationTimePoint (by omega)]
      · rw [← hm, later_expirationTimePoint (by omega)]
        exact hafter
      · rw [← hm, later_numberOfRepetitionsLeft (by omega)]
    · obtain ⟨n, hn⟩ := Int.eq_ofNat_of_zero_le
        (show 0 ≤ timer.numberOfRepetitionsLeft by omega)
      have hle : (n : Int) * timer.repetitionTimeInterval ≤ k * timer.repetitionTimeInterval :=
        Int.mul_le_mul_of_nonneg_right (by omega) hinterval
      have hrun := @expireUntil_usedUp σ callback timePoint timer s n hpos hn hlow
        (by linarith) hrange
      refine ⟨_, _, _, _, hrun, fun hcontra => absurd hcontra hlast, ?_⟩
      intro _ _ m hmdef
      rw [hk] at hmdef
      subst hmdef
      refine ⟨fun hcontra => absurd hcontra hleft, fun _ => ⟨rfl, ?_⟩⟩
      have htoNat : (timer.numberOfRepetitionsLeft + 1).toNat = n + 1 := by omega
      rw [htoNat]

/-- Every two nanoseconds from the third on, three times more, by the eighth. -/
theorem expireUntil_expirations_three :
    ∃ rounds isStillValid after t,
      (Timer.mk 0 3 2 3).expireUntil Nat.succ 8 rounds 0 = some (isStillValid, after, t) ∧
      isStillValid = true ∧ t = 3 ∧ after.expirationTimePoint = 9 ∧
      after.numberOfRepetitionsLeft = 0 := by
  obtain ⟨rounds, isStillValid, after, t, hrun, _, hrepeats⟩ :=
    expireUntil_expirations (Timer.mk 0 3 2 3) Nat.succ 0 8 (by decide) (by decide) (by decide)
      (by decide) (by decide)
  obtain ⟨hvalid, hcalls, htime, _, hleft⟩ :=
    (hrepeats (by decide) (by decide) 3 (by decide)).1 (.inr (by decide))
  exact ⟨rounds, isStillValid, after, t, hrun, hvalid, hcalls, htime, hleft⟩

end Timer

end XubinhServer

import Mathlib.Logic.Function.Basic
import XubinhServer.Lib.Transition
import Mathlib.Tactic.Common

/-! The functor queues of an event loop and the way other threads wake it up. Every push,
compare-exchange, eventfd access, lamp access and drain is one step. -/
namespace XubinhServer.EventLoop

open Transition

open Function (update)

/-- Where a producer thread is in `run` or `ask_to_stop`. -/
inductive Producer where
  | idle
  /-- before the compare-exchange of `_wake_up_this_loop` -/
  | waking (queue : Nat)
  /-- between the compare-exchange that lit the lamp and the write to the eventfd -/
  | signalling (queue : Nat)
  deriving DecidableEq, Repr

/-- Where the loop thread is in `loop`. -/
inductive LoopThread (φ : Type) where
  | checking
  | polling
  | dispatching (ready : List Nat)
  /-- eventfd `queue` has been read and its lamp is still lit -/
  | clearing (queue : Nat) (ready : List Nat)
  /-- in `_invoke_all_functors`, called by `loop` or by a callback that `loop` dispatched and
  that leaves `resume` to dispatch -/
  | draining (queue : Nat) (resume : Option (List Nat))
  | executing (queue : Nat) (batch : List φ) (resume : Option (List Nat))
  | returned
  deriving Repr

/-- The shared state, the program counters, and what has happened to the functors. -/
structure State (φ : Type) where
  producers : Nat → Producer
  pilotLamps : Nat → Bool
  eventfds : Nat → Nat
  queues : Nat → List φ
  needStop : Bool
  loopThread : LoopThread φ
  eventfdTriggered : Bool
  /-- what the last check of `_need_stop` has seen -/
  stopSeen : Bool
  exiting : Bool
  pushed : Nat → List φ
  executed : Nat → List φ
  /-- how many functors had been pushed at the last drain -/
  drained : Nat → Nat

namespace State

def initial (φ : Type) : State φ where
  producers _ := .idle
  pilotLamps _ := false
  eventfds _ := 0
  queues _ := []
  needStop := false
  loopThread := .checking
  eventfdTriggered := false
  stopSeen := false
  exiting := false
  pushed _ := []
  executed _ := []
  drained _ := 0

variable {φ : Type}

@[simps]
def push (s : State φ) (p i : Nat) (f : φ) : State φ := { s with
  producers := update s.producers p (.waking i)
  queues := update s.queues i (s.queues i ++ [f])
  pushed := update s.pushed i (s.pushed i ++ [f]) }

/-- The loop thread takes the functor `f` of queue `i`, and `rest` is left of its batch. -/
@[simps]
def execute (s : State φ) (i : Nat) (f : φ) (rest : List φ) (resume : Option (List Nat)) :
    State φ := { s with
  executed := update s.executed i (s.executed i ++ [f])
  loopThread := .executing i rest resume }

end State

variable {φ : Type}

/-- One step of a producer or of the loop thread, for `n` queues that hold up to `capacity`
functors each. -/
inductive Step (n capacity : Nat) : State φ → State φ → Prop
  /-- `_leave_to_owner_thread`: `push` returns once there is room. -/
  | push {s} (p i : Nat) (f : φ) (hp : s.producers p = .idle) (hi : i < n)
      (hroom : (s.queues i).length < capacity) :
      Step n capacity s (s.push p i f)
  | askToStop {s} (p : Nat) (hp : s.producers p = .idle) :
      Step n capacity s { s with
        producers := update s.producers p (.waking 0)
        needStop := true }
  | exchangeLit {s} (p i : Nat) (hp : s.producers p = .waking i) (hlamp : s.pilotLamps i = true) :
      Step n capacity s { s with producers := update s.producers p .idle }
  | exchangeOff {s} (p i : Nat) (hp : s.producers p = .waking i)
      (hlamp : s.pilotLamps i = false) :
      Step n capacity s { s with
        producers := update s.producers p (.signalling i)
        pilotLamps := update s.pilotLamps i true }
  | write {s} (p i : Nat) (hp : s.producers p = .signalling i) :
      Step n capacity s { s with
        producers := update s.producers p .idle
        eventfds := update s.eventfds i (s.eventfds i + 1) }
  /-- The poller still listens on other descriptors, or nobody has asked to stop. -/
  | continueLoop {s} (hl : s.loopThread = .checking) :
      Step n capacity s { s with stopSeen := s.needStop, loopThread := .polling }
  | exit {s} (hl : s.loopThread = .checking) (hstop : s.needStop = true) :
      Step n capacity s { s with
        stopSeen := true, exiting := true, loopThread := .draining 0 none }
  /-- `epoll_wait` reports eventfds, or only other descriptors. -/
  | poll {s} (ready : List Nat) (hl : s.loopThread = .polling) (hnodup : ready.Nodup)
      (hready : ∀ i ∈ ready, i < n ∧ 0 < s.eventfds i) :
      Step n capacity s { s with loopThread := .dispatching ready }
  | read {s} (i : Nat) (ready : List Nat) (hl : s.loopThread = .dispatching (i :: ready)) :
      Step n capacity s { s with
        eventfds := update s.eventfds i 0
        loopThread := .clearing i ready }
  | clear {s} (i : Nat) (ready : List Nat) (hl : s.loopThread = .clearing i ready) :
      Step n capacity s { s with
        pilotLamps := update s.pilotLamps i false
        eventfdTriggered := true
        loopThread := .dispatching ready }
  /-- Another descriptor's callback calls `invoke_all_functors`, as `TcpServer::stop` does. -/
  | invokeAllFunctors {s} (ready : List Nat) (hl : s.loopThread = .dispatching ready) :
      Step n capacity s { s with loopThread := .draining 0 (some ready) }
  | dispatched {s} (hl : s.loopThread = .dispatching []) :
      Step n capacity s { s with
        loopThread := if s.eventfdTriggered then .draining 0 none else .checking }
  | drain {s} (i : Nat) (resume : Option (List Nat)) (hl : s.loopThread = .draining i resume)
      (hi : i < n) :
      Step n capacity s { s with
        queues := update s.queues i []
        drained := update s.drained i (s.pushed i).length
        loopThread := .executing i (s.queues i) resume }
  | execute {s} (i : Nat) (f : φ) (rest : List φ) (resume : Option (List Nat))
      (hl : s.loopThread = .executing i (f :: rest) resume) :
      Step n capacity s (s.execute i f rest resume)
  | nextQueue {s} (i : Nat) (resume : Option (List Nat))
      (hl : s.loopThread = .executing i [] resume) :
      Step n capacity s { s with loopThread := .draining (i + 1) resume }
  | resume {s} (i : Nat) (ready : List Nat) (hl : s.loopThread = .draining i (some ready))
      (hi : n ≤ i) :
      Step n capacity s { s with loopThread := .dispatching ready }
  | finish {s} (i : Nat) (hl : s.loopThread = .draining i none) (hi : n ≤ i) :
      Step n capacity s { s with
        eventfdTriggered := false
        loopThread := if s.exiting then .returned else .checking }

/-- The loop thread drains queue `i` before it polls again. -/
def WillDrain (s : State φ) (i : Nat) : Prop :=
  match s.loopThread with
  | .clearing _ _ => True
  | .dispatching _ => s.eventfdTriggered = true
  | .draining j resume => j ≤ i ∨ resume.isSome ∧ s.eventfdTriggered = true
  | .executing j _ resume => j < i ∨ resume.isSome ∧ s.eventfdTriggered = true
  | _ => False

/-- A producer is about to light lamp `i` or to write to its eventfd. -/
def Waking (s : State φ) (i : Nat) : Prop :=
  ∃ p, s.producers p = .waking i ∨ s.producers p = .signalling i

/-- The functors that have been taken from queue `i` and still have to run. -/
def batch (s : State φ) (i : Nat) : List φ :=
  match s.loopThread with
  | .executing j b _ => if j = i then b else []
  | _ => []

/-- The functors of queue `i` that still have to run. -/
def pending (s : State φ) (i : Nat) : List φ := batch s i ++ s.queues i

/-- A lit lamp stands for a write that is under way, or has not been read, or has been read just
now; so no wake-up that a lit lamp suppresses is missed. -/
structure Awake (n : Nat) (s : State φ) : Prop where
  lit : ∀ i < n, s.pilotLamps i = true → (∃ p, s.producers p = .signalling i) ∨
    0 < s.eventfds i ∨ ∃ ready, s.loopThread = .clearing i ready
  queued : ∀ i < n, s.queues i ≠ [] → Waking s i ∨ 0 < s.eventfds i ∨ WillDrain s i
  stop : s.needStop = true → s.stopSeen = true ∨ Waking s 0 ∨ 0 < s.eventfds 0 ∨
    s.loopThread ≠ .polling

/-- Each functor that has been pushed has run, or runs in this batch, or waits in its queue. -/
structure Ordered (s : State φ) (i : Nat) : Prop where
  history : s.pushed i = s.executed i ++ batch s i ++ s.queues i
  drained : s.drained i = (s.executed i ++ batch s i).length

theorem awake_initial (n : Nat) : Awake n (State.initial φ) where
  lit _ _ h := by cases h
  queued _ _ h := absurd rfl h
  stop h := by cases h

theorem ordered_initial (i : Nat) : Ordered (State.initial φ) i := ⟨rfl, rfl⟩

section Step

variable {n capacity : Nat} {s t : State φ}

theorem signalling_update {f : Nat → Producer} {p i : Nat} {v : Producer}
    (h : ∃ q, f q = .signalling i) (hp : f p ≠ .signalling i) :
    ∃ q, update f p v q = .signalling i := by
  obtain ⟨q, hq⟩ := h
  have hne : q ≠ p := by
    intro heq
    subst heq
    exact hp hq
  exact ⟨q, by rw [Function.update_of_ne hne, hq]⟩

/-- A producer that was not signalling leaves the reasons for a lit lamp. -/
theorem Awake.lit_update (h : Awake n s) {p i : Nat} {v : Producer} (hi : i < n)
    (hlit : s.pilotLamps i = true) (hp : s.producers p ≠ .signalling i) :
    (∃ q, update s.producers p v q = .signalling i) ∨ 0 < s.eventfds i ∨
      ∃ ready, s.loopThread = .clearing i ready := by
  obtain hs | hrest := h.lit i hi hlit
  · exact .inl (signalling_update hs hp)
  · exact .inr hrest

/-- A producer that was not busy with queue `i` leaves those that are. -/
theorem waking_update {p i : Nat} {v : Producer} (h : Waking s i)
    (ht : t.producers = update s.producers p v) (hw : s.producers p ≠ .waking i)
    (hs : s.producers p ≠ .signalling i) : Waking t i := by
  obtain ⟨q, hq⟩ := h
  have hne : q ≠ p := by
    intro heq
    subst heq
    cases hq with
    | inl hq => exact hw hq
    | inr hq => exact hs hq
  exact ⟨q, by rwa [ht, Function.update_of_ne hne]⟩

/-- A step of the loop thread that reads no eventfd and clears no lamp. -/
theorem Awake.of_loopThread (h : Awake n s) (hp : t.producers = s.producers)
    (hl : t.pilotLamps = s.pilotLamps) (he : t.eventfds = s.eventfds)
    (hclear : ∀ i ready, s.loopThread ≠ .clearing i ready)
    (hq : ∀ i < n, t.queues i ≠ [] → s.queues i ≠ [] ∧ (WillDrain s i → WillDrain t i))
    (hstop : t.loopThread = .polling → t.stopSeen = t.needStop) : Awake n t where
  lit i hi hlit := by
    rw [hl] at hlit
    rw [hp, he]
    obtain hs | hpos | ⟨ready, hc⟩ := h.lit i hi hlit
    · exact .inl hs
    · exact .inr (.inl hpos)
    · exact absurd hc (hclear i ready)
  queued i hi hne := by
    obtain ⟨hne, hwill⟩ := hq i hi hne
    rw [Waking, hp, he]
    obtain hw | hpos | hw := h.queued i hi hne
    · exact .inl hw
    · exact .inr (.inl hpos)
    · exact .inr (.inr (hwill hw))
  stop hneed := by
    by_cases hpoll : t.loopThread = .polling
    · exact .inl ((hstop hpoll).trans hneed)
    · exact .inr (.inr (.inr hpoll))

theorem Awake.push (h : Awake n s) (p i : Nat) (f : φ) (hp : s.producers p = .idle) :
    Awake n (s.push p i f) where
  lit j hj hlit := h.lit_update hj hlit (by simp [hp])
  queued j hj hne := by
    by_cases hji : j = i
    · subst hji
      exact .inl ⟨p, .inl (Function.update_self ..)⟩
    · replace hne : s.queues j ≠ [] := by simpa [hji] using hne
      obtain hw | hrest := h.queued j hj hne
      · exact .inl (waking_update hw rfl (by simp [hp]) (by simp [hp]))
      · exact .inr hrest
  stop hneed := by
    obtain hs | hw | hrest := h.stop hneed
    · exact .inl hs
    · exact .inr (.inl (waking_update hw rfl (by simp [hp]) (by simp [hp])))
    · exact .inr (.inr hrest)

theorem Awake.askToStop (h : Awake n s) (p : Nat) (hp : s.producers p = .idle) :
    Awake n { s with
      producers := update s.producers p (.waking 0)
      needStop := true } where
  lit j hj hlit := h.lit_update hj hlit (by simp [hp])
  queued j hj hne := by
    obtain hw | hrest := h.queued j hj hne
    · exact .inl (waking_update hw rfl (by simp [hp]) (by simp [hp]))
    · exact .inr hrest
  stop _ := .inr (.inl ⟨p, .inl (Function.update_self ..)⟩)

/-- A lit lamp stands for a wake-up that the loop thread has not finished with. -/
theorem Awake.of_lit (h : Awake n s) {i : Nat} (hi : i < n) (hlit : s.pilotLamps i = true) :
    (∃ p, s.producers p = .signalling i) ∨ 0 < s.eventfds i ∨ WillDrain s i := by
  obtain hs | hpos | ⟨ready, hc⟩ := h.lit i hi hlit
  · exact .inl hs
  · exact .inr (.inl hpos)
  · exact .inr (.inr (by simp [WillDrain, hc]))

/-- The wake-up that a lit lamp suppresses is not missed. -/
theorem Awake.exchangeLit (h : Awake n s) (hn : 0 < n) (p i : Nat)
    (hp : s.producers p = .waking i) (hlamp : s.pilotLamps i = true) :
    Awake n { s with producers := update s.producers p .idle } where
  lit j hj hlit := h.lit_update hj hlit (by simp [hp])
  queued j hj hne := by
    by_cases hji : j = i
    · subst hji
      obtain hs | hrest := h.of_lit hj hlamp
      · obtain ⟨q, hq⟩ := signalling_update (p := p) (v := .idle) hs (by simp [hp])
        exact .inl ⟨q, .inr hq⟩
      · exact .inr hrest
    · obtain hw | hrest := h.queued j hj hne
      · exact .inl (waking_update hw rfl (by simp [hp, Ne.symm hji]) (by simp [hp]))
      · exact .inr hrest
  stop hneed := by
    by_cases hi : i = 0
    · subst hi
      obtain hs | hpos | ⟨ready, hc⟩ := h.lit 0 hn hlamp
      · obtain ⟨q, hq⟩ := signalling_update (p := p) (v := .idle) hs (by simp [hp])
        exact .inr (.inl ⟨q, .inr hq⟩)
      · exact .inr (.inr (.inl hpos))
      · exact .inr (.inr (.inr (by simp [hc])))
    · obtain hs | hw | hrest := h.stop hneed
      · exact .inl hs
      · exact .inr (.inl (waking_update hw rfl (by simp [hp, hi]) (by simp [hp])))
      · exact .inr (.inr hrest)

theorem Awake.exchangeOff (h : Awake n s) (p i : Nat) (hp : s.producers p = .waking i) :
    Awake n { s with
      producers := update s.producers p (.signalling i)
      pilotLamps := update s.pilotLamps i true } := by
  have hmove : ∀ j, Waking s j → Waking { s with
      producers := update s.producers p (.signalling i)
      pilotLamps := update s.pilotLamps i true } j := by
    intro j hw
    by_cases hji : j = i
    · subst hji
      exact ⟨p, .inr (Function.update_self ..)⟩
    · exact waking_update hw rfl (by simp [hp, Ne.symm hji]) (by simp [hp])
  constructor
  · intro j hj hlit
    by_cases hji : j = i
    · subst hji
      exact .inl ⟨p, Function.update_self ..⟩
    · replace hlit : s.pilotLamps j = true := by simpa [hji] using hlit
      obtain hs | hrest := h.lit j hj hlit
      · exact .inl (signalling_update hs (by simp [hp]))
      · exact .inr hrest
  · exact fun j hj hne => (h.queued j hj hne).imp_left (hmove j)
  · intro hneed
    obtain hs | hw | hrest := h.stop hneed
    · exact .inl hs
    · exact .inr (.inl (hmove 0 hw))
    · exact .inr (.inr hrest)

theorem Awake.write (h : Awake n s) (p i : Nat) (hp : s.producers p = .signalling i) :
    Awake n { s with
      producers := update s.producers p .idle
      eventfds := update s.eventfds i (s.eventfds i + 1) } := by
  have hpos : ∀ j, 0 < s.eventfds j → 0 < update s.eventfds i (s.eventfds i + 1) j := by
    intro j hj
    by_cases hji : j = i
    · simp [hji]
    · simpa [hji] using hj
  have hmove : ∀ j, Waking s j → Waking { s with
      producers := update s.producers p .idle
      eventfds := update s.eventfds i (s.eventfds i + 1) } j ∨
      0 < update s.eventfds i (s.eventfds i + 1) j := by
    intro j hw
    by_cases hji : j = i
    · exact .inr (by simp [hji])
    · exact .inl (waking_update hw rfl (by simp [hp]) (by simp [hp, Ne.symm hji]))
  constructor
  · intro j hj hlit
    by_cases hji : j = i
    · exact .inr (.inl (by simp [hji]))
    · obtain hs | he | hc := h.lit j hj hlit
      · exact .inl (signalling_update hs (by simp [hp, Ne.symm hji]))
      · exact .inr (.inl (hpos j he))
      · exact .inr (.inr hc)
  · intro j hj hne
    obtain hw | he | hd := h.queued j hj hne
    · cases hmove j hw with
      | inl hw => exact .inl hw
      | inr he => exact .inr (.inl he)
    · exact .inr (.inl (hpos j he))
    · exact .inr (.inr hd)
  · intro hneed
    obtain hs | hw | he | hl := h.stop hneed
    · exact .inl hs
    · cases hmove 0 hw with
      | inl hw => exact .inr (.inl hw)
      | inr he => exact .inr (.inr (.inl he))
    · exact .inr (.inr (.inl (hpos 0 he)))
    · exact .inr (.inr (.inr hl))

theorem Awake.read (h : Awake n s) (i : Nat) (ready : List Nat)
    (hl : s.loopThread = .dispatching (i :: ready)) :
    Awake n { s with
      eventfds := update s.eventfds i 0
      loopThread := .clearing i ready } where
  lit j hj hlit := by
    by_cases hji : j = i
    · subst hji
      exact .inr (.inr ⟨ready, rfl⟩)
    · obtain hs | hpos | ⟨_, hc⟩ := h.lit j hj hlit
      · exact .inl hs
      · exact .inr (.inl (by simpa [hji] using hpos))
      · simp [hl] at hc
  queued _ _ _ := .inr (.inr trivial)
  stop _ := .inr (.inr (.inr (by simp)))

theorem Awake.clear (h : Awake n s) (i : Nat) (ready : List Nat)
    (hl : s.loopThread = .clearing i ready) :
    Awake n { s with
      pilotLamps := update s.pilotLamps i false
      eventfdTriggered := true
      loopThread := .dispatching ready } where
  lit j hj hlit := by
    have hji : j ≠ i := by
      intro heq
      subst heq
      simp at hlit
    replace hlit : s.pilotLamps j = true := by simpa [hji] using hlit
    obtain hs | hpos | ⟨_, hc⟩ := h.lit j hj hlit
    · exact .inl hs
    · exact .inr (.inl hpos)
    · simp [hl, Ne.symm hji] at hc
  queued _ _ _ := .inr (.inr rfl)
  stop _ := .inr (.inr (.inr (by simp)))

theorem Awake.step (h : Awake n s) (hn : 0 < n) (hstep : Step n capacity s t) : Awake n t := by
  cases hstep with
  | push p i f hp _ _ => exact h.push p i f hp
  | askToStop p hp => exact h.askToStop p hp
  | exchangeLit p i hp hlamp => exact h.exchangeLit hn p i hp hlamp
  | exchangeOff p i hp _ => exact h.exchangeOff p i hp
  | write p i hp => exact h.write p i hp
  | read i ready hl => exact h.read i ready hl
  | clear i ready hl => exact h.clear i ready hl
  | continueLoop hl =>
    refine h.of_loopThread rfl rfl rfl ?_ ?_ ?_
    · simp [hl]
    · exact fun i _ hne => ⟨hne, by simp [WillDrain, hl]⟩
    · exact fun _ => rfl
  | exit hl hstop =>
    refine h.of_loopThread rfl rfl rfl ?_ ?_ ?_
    · simp [hl]
    · exact fun i _ hne => ⟨hne, by simp [WillDrain]⟩
    · simp
  | poll ready hl _ _ =>
    refine h.of_loopThread rfl rfl rfl ?_ ?_ ?_
    · simp [hl]
    · exact fun i _ hne => ⟨hne, by simp [WillDrain, hl]⟩
    · simp
  | invokeAllFunctors ready hl =>
    refine h.of_loopThread rfl rfl rfl ?_ ?_ ?_
    · simp [hl]
    · exact fun i _ hne => ⟨hne, by simp [WillDrain]⟩
    · simp
  | dispatched hl =>
    refine h.of_loopThread rfl rfl rfl ?_ ?_ ?_
    · simp [hl]
    · exact fun i _ hne => ⟨hne, by simp +contextual [WillDrain, hl]⟩
    · cases s.eventfdTriggered <;> simp
  | drain j resume hl hj =>
    refine h.of_loopThread rfl rfl rfl ?_ ?_ ?_
    · simp [hl]
    · intro i _ hne
      have hij : i ≠ j := by
        intro heq
        subst heq
        simp at hne
      refine ⟨by simpa [hij] using hne, fun hwill => ?_⟩
      simp only [WillDrain, hl] at hwill
      exact hwill.imp_left fun hle => Nat.lt_of_le_of_ne hle (Ne.symm hij)
    · simp
  | execute j f rest resume hl =>
    refine h.of_loopThread rfl rfl rfl ?_ ?_ ?_
    · simp [hl]
    · exact fun i _ hne => ⟨hne, by simp [WillDrain, hl]⟩
    · simp
  | nextQueue j resume hl =>
    refine h.of_loopThread rfl rfl rfl ?_ ?_ ?_
    · simp [hl]
    · exact fun i _ hne => ⟨hne, by simp [WillDrain, hl, Nat.succ_le_iff]⟩
    · simp
  | resume j ready hl hj =>
    refine h.of_loopThread rfl rfl rfl ?_ ?_ ?_
    · simp [hl]
    · refine fun i hi hne => ⟨hne, fun hwill => ?_⟩
      simp only [WillDrain, hl] at hwill
      obtain hle | ⟨_, htriggered⟩ := hwill
      · omega
      · exact htriggered
    · simp
  | finish j hl hj =>
    refine h.of_loopThread rfl rfl rfl ?_ ?_ ?_
    · simp [hl]
    · refine fun i hi hne => ⟨hne, fun hwill => ?_⟩
      simp only [WillDrain, hl] at hwill
      obtain hle | ⟨hsome, _⟩ := hwill
      · omega
      · cases hsome
    · cases s.exiting <;> simp

/-- The loop polls after its checks only. -/
theorem polling_of_step (hstep : Step n capacity s t) (hpoll : t.loopThread = .polling) :
    s.loopThread = .polling ∨ s.loopThread = .checking := by
  cases hstep with
  | continueLoop hl => exact .inr hl
  | push | askToStop | exchangeLit | exchangeOff | write => exact .inl hpoll
  | dispatched hl => cases h : s.eventfdTriggered <;> simp [h] at hpoll
  | finish i hl hi => cases h : s.exiting <;> simp [h] at hpoll
  | _ => cases hpoll

/-- A step that neither queues nor runs a functor. -/
theorem Ordered.of_eq {i : Nat} (h : Ordered s i) (hp : t.pushed i = s.pushed i)
    (he : t.executed i = s.executed i) (hb : batch t i = batch s i)
    (hq : t.queues i = s.queues i) (hd : t.drained i = s.drained i) : Ordered t i where
  history := by rw [hp, he, hb, hq, h.history]
  drained := by rw [hd, he, hb, h.drained]

theorem Ordered.step {i : Nat} (h : Ordered s i) (hstep : Step n capacity s t) :
    Ordered t i := by
  cases hstep with
  | push p j f hp hj hroom =>
    by_cases hij : i = j
    · subst hij
      constructor
      · simp [batch, h.history]
      · exact h.drained
    · exact h.of_eq (by simp [hij]) rfl rfl (by simp [hij]) rfl
  | drain j resume hl hj =>
    have hbatch : batch s i = [] := by simp [batch, hl]
    by_cases hij : i = j
    · subst hij
      have hhistory := h.history
      rw [hbatch, List.append_nil] at hhistory
      constructor <;> simp [batch, hhistory]
    · refine h.of_eq rfl rfl ?_ (by simp [hij]) (by simp [hij])
      rw [hbatch]
      simp [batch, Ne.symm hij]
  | execute j f rest resume hl =>
    by_cases hij : i = j
    · subst hij
      have hbatch : batch s i = f :: rest := by simp [batch, hl]
      obtain ⟨hhistory, hdrained⟩ := h
      rw [hbatch] at hhistory hdrained
      constructor
      · simpa [batch] using hhistory
      · simpa [batch] using hdrained
    · exact h.of_eq rfl (by simp [hij]) (by simp [batch, hl, Ne.symm hij]) rfl rfl
  | dispatched hl =>
    exact h.of_eq rfl rfl (by cases s.eventfdTriggered <;> simp [batch, hl]) rfl rfl
  | finish j hl hj =>
    exact h.of_eq rfl rfl (by cases s.exiting <;> simp [batch, hl]) rfl rfl
  | askToStop p hp => exact h.of_eq rfl rfl rfl rfl rfl
  | exchangeLit p j hp _ => exact h.of_eq rfl rfl rfl rfl rfl
  | exchangeOff p j hp _ => exact h.of_eq rfl rfl rfl rfl rfl
  | write p j hp => exact h.of_eq rfl rfl rfl rfl rfl
  | continueLoop hl => exact h.of_eq rfl rfl (by simp [batch, hl]) rfl rfl
  | exit hl _ => exact h.of_eq rfl rfl (by simp [batch, hl]) rfl rfl
  | poll ready hl _ _ => exact h.of_eq rfl rfl (by simp [batch, hl]) rfl rfl
  | read j ready hl => exact h.of_eq rfl rfl (by simp [batch, hl]) rfl rfl
  | clear j ready hl => exact h.of_eq rfl rfl (by simp [batch, hl]) rfl rfl
  | invokeAllFunctors ready hl => exact h.of_eq rfl rfl (by simp [batch, hl]) rfl rfl
  | nextQueue j resume hl => exact h.of_eq rfl rfl (by simp [batch, hl]) rfl rfl
  | resume j ready hl _ => exact h.of_eq rfl rfl (by simp [batch, hl]) rfl rfl

theorem pending_push {p i j : Nat} {f g : φ} (hg : g ∈ pending (s.push p i f) j) :
    g ∈ pending s j ∨ g = f := by
  by_cases hj : j = i
  · subst hj
    simpa [pending, batch, or_assoc] using hg
  · left
    simpa [pending, batch, hj] using hg

theorem pending_execute {i j : Nat} {f g : φ} {rest : List φ} {resume : Option (List Nat)}
    (hl : s.loopThread = .executing i (f :: rest) resume)
    (hg : g ∈ pending (s.execute i f rest resume) j) : g ∈ pending s j := by
  by_cases hj : i = j
  · subst hj
    simp only [pending, batch, hl, State.execute_loopThread, State.execute_queues, if_true,
      List.cons_append] at hg ⊢
    exact List.mem_cons_of_mem _ hg
  · simpa [pending, batch, hl, hj] using hg

/-- The functors leave the queues by running only. -/
theorem pending_eq {i : Nat} (hs : Ordered s i) (ht : Ordered t i)
    (hpushed : t.pushed = s.pushed) (hexecuted : t.executed = s.executed) :
    pending t i = pending s i := by
  have hhistory := ht.history
  rw [hpushed, hexecuted, hs.history, List.append_assoc, List.append_assoc] at hhistory
  exact (List.append_cancel_left hhistory).symm

end Step

end XubinhServer.EventLoop

import Mathlib.Data.Fintype.Option
import XubinhServer.BlockingQueue
import XubinhServer.EventLoop.WakeUp

/-! An event loop whose functor queues are `util::BlockingQueue`s: the mutex and the condition
variables of each queue beside its pilot lamp and its eventfd. -/
namespace XubinhServer.EventLoop.Bounded

open Transition
open Function (update)
open BlockingQueue (QueueState operations)

/-- The threads of an event loop: `none` is its owner, and `some p` is one that calls `run`. -/
abbrev ThreadId (m : Nat) := Option (Fin m)

structure System (m : Nat) (φ : Type) where
  wake : State φ
  queues : Nat → QueueState φ (ThreadId m)

def System.initial (m : Nat) (φ : Type) : System m φ where
  wake := State.initial φ
  queues _ := Monitor.State.initial []

variable {m : Nat} {φ : Type}

/-- The thread is in no operation of a queue. -/
def System.Outside (s : System m φ) (t : ThreadId m) : Prop :=
  ∀ i, (s.queues i).positions t = .outside

/-- A thread calls an operation of queue `i`. -/
def System.call (s : System m φ) (i : Nat) (t : ThreadId m) (o : BlockingQueue.Op φ) :
    System m φ := { s with
  queues := update s.queues i { s.queues i with
    positions := update (s.queues i).positions t (.entering o) } }

/-- One step of a thread that is in `run`, in `ask_to_stop` or in `loop`, for `n` queues. A step
of `EventLoop.Step` that touches no queue is taken as it is. -/
inductive Advance (n capacity : Nat) : System m φ → System m φ → Prop
  /-- A step in an operation of queue `i` before or behind its effect. -/
  | inQueue {s} (i : Nat) (q : QueueState φ (ThreadId m))
      (h : Monitor.Advance (operations capacity) (s.queues i) q)
      (hsame : q.history = (s.queues i).history) :
      Advance n capacity s { s with queues := update s.queues i q }
  | push {s} (i : Nat) (q : QueueState φ (ThreadId m)) (p : Fin m) (f : φ)
      (h : Monitor.Advance (operations capacity) (s.queues i) q)
      (hevent : q.history = (s.queues i).history ++ [(some p, .push f, .pushed)]) :
      Advance n capacity s { wake := s.wake.push p i f, queues := update s.queues i q }
  | popAll {s} (i : Nat) (q : QueueState φ (ThreadId m)) (batch : List φ)
      (resume : Option (List Nat)) (hl : s.wake.loopThread = .draining i resume)
      (h : Monitor.Advance (operations capacity) (s.queues i) q)
      (hevent : q.history = (s.queues i).history ++ [(none, .popAll, .poppedAll batch)]) :
      Advance n capacity s
        { wake := { s.wake with
            queues := update s.wake.queues i []
            drained := update s.wake.drained i (s.wake.pushed i).length
            loopThread := .executing i batch resume }
          queues := update s.queues i q }
  | callPopAll {s} (i : Nat) (resume : Option (List Nat))
      (hl : s.wake.loopThread = .draining i resume) (hi : i < n) (hout : s.Outside none) :
      Advance n capacity s (s.call i none .popAll)
  | apart {s} (w : State φ) (h : EventLoop.Step n capacity s.wake w)
      (hqueues : w.queues = s.wake.queues)
      (hloop : w.loopThread ≠ s.wake.loopThread →
        s.Outside none ∧ ∀ i resume, s.wake.loopThread = .draining i resume → n ≤ i)
      (hproducers : ∀ p, w.producers p ≠ s.wake.producers p →
        ∃ hp : p < m, s.Outside (some ⟨p, hp⟩))
      (hbegin : ∀ p, s.wake.producers p = .idle → w.producers p = .idle)
      (hpoll : s.wake.loopThread = .polling → w.loopThread ≠ .dispatching []) :
      Advance n capacity s { s with wake := w }

/-- One step of the system: a thread may call `run` or `ask_to_stop`, a wait may end by itself,
and `epoll_wait` may report other descriptors only. -/
inductive Step (n capacity : Nat) : System m φ → System m φ → Prop
  | advance {s t} (h : Advance n capacity s t) : Step n capacity s t
  | run {s} (p : Fin m) (i : Nat) (f : φ) (hp : s.wake.producers p = .idle) (hi : i < n)
      (hout : s.Outside (some p)) : Step n capacity s (s.call i (some p) (.push f))
  | askToStop {s} (p : Fin m) (hp : s.wake.producers p = .idle) (hout : s.Outside (some p)) :
      Step n capacity s { s with wake := { s.wake with
        producers := update s.wake.producers p (.waking 0)
        needStop := true } }
  | spurious {s} (i : Nat) (t : ThreadId m) (o : BlockingQueue.Op φ)
      (hp : (s.queues i).positions t = .waiting o) :
      Step n capacity s { s with queues := update s.queues i { s.queues i with
        positions := update (s.queues i).positions t (.woken o) } }
  | otherDescriptors {s} (hl : s.wake.loopThread = .polling) :
      Step n capacity s { s with wake := { s.wake with loopThread := .dispatching [] } }

/-- What the queues and the rest of the loop know of each other. -/
structure Coupled (n : Nat) (s : System m φ) : Prop where
  shared : ∀ i, s.wake.queues i = (s.queues i).shared
  single : ∀ t i j, i ≠ j → (s.queues i).positions t ≠ .outside →
    (s.queues j).positions t = .outside
  producer : ∀ p i o, ((s.queues i).positions (some p)).begun = some o →
    i < n ∧ s.wake.producers p = .idle ∧ ∃ f, o = .push f
  owner : ∀ i o, ((s.queues i).positions none).begun = some o →
    i < n ∧ o = .popAll ∧ ∃ resume, s.wake.loopThread = .draining i resume
  leaving : ∀ i, (s.queues i).positions none ≠ .outside →
    (∃ resume, s.wake.loopThread = .draining i resume) ∨
      ∃ batch resume, s.wake.loopThread = .executing i batch resume
  foreign : ∀ p, m ≤ p → s.wake.producers p = .idle

theorem coupled_initial (n : Nat) : Coupled n (System.initial m φ) where
  shared _ := rfl
  single _ _ _ _ _ := rfl
  producer _ _ _ h := by cases h
  owner _ _ h := by cases h
  leaving _ h := absurd rfl h
  foreign _ _ := rfl

section Step

variable {n capacity : Nat} {s t : System m φ}

theorem ne_outside_of_begun {p : Monitor.Position (BlockingQueue.Op φ) (BlockingQueue.Result φ)}
    {o : BlockingQueue.Op φ} (h : p.begun = some o) : p ≠ .outside := by
  intro heq
  rw [heq] at h
  cases h

/-- A queue changes, and no operation begins or is done in it. -/
theorem Coupled.inQueue (h : Coupled n s) {i : Nat} {q : QueueState φ (ThreadId m)}
    (hshared : q.shared = (s.queues i).shared)
    (hbegun : ∀ u, (q.positions u).begun = ((s.queues i).positions u).begun)
    (hout : ∀ u, (s.queues i).positions u = .outside → q.positions u = .outside) :
    Coupled n { s with queues := update s.queues i q } := by
  have hsame : ∀ j u, ((update s.queues i q j).positions u).begun =
      ((s.queues j).positions u).begun := by
    intro j u
    by_cases hj : j = i
    · subst hj
      rw [Function.update_self, hbegun]
    · rw [Function.update_of_ne hj]
  have houtside : ∀ j u, (s.queues j).positions u = .outside →
      (update s.queues i q j).positions u = .outside := by
    intro j u hu
    by_cases hj : j = i
    · subst hj
      rw [Function.update_self]
      exact hout u hu
    · rwa [Function.update_of_ne hj]
  constructor
  · intro j
    by_cases hj : j = i
    · subst hj
      exact (h.shared j).trans (by simp [hshared])
    · exact (h.shared j).trans (by simp [hj])
  · intro u j k hne hj
    exact houtside k u (h.single u j k hne fun heq => hj (houtside j u heq))
  · intro p j o ho
    exact h.producer p j o ((hsame j _).symm.trans ho)
  · intro j o ho
    exact h.owner j o ((hsame j _).symm.trans ho)
  · intro j hj
    exact h.leaving j fun heq => hj (houtside j _ heq)
  · exact h.foreign

/-- Where the threads are behind a step of thread `u` in queue `i`. -/
theorem positions_update {i : Nat} {q : QueueState φ (ThreadId m)} {u v : ThreadId m}
    {p : Monitor.Position (BlockingQueue.Op φ) (BlockingQueue.Result φ)}
    (hq : q.positions = update (s.queues i).positions u p) (j : Nat) (hne : j = i → v ≠ u) :
    (update s.queues i q j).positions v = (s.queues j).positions v := by
  by_cases hj : j = i
  · subst hj
    rw [Function.update_self, hq, Function.update_of_ne (hne rfl)]
  · rw [Function.update_of_ne hj]

/-- A thread that is outside the other queues moves in queue `i`. -/
theorem Coupled.single_update (h : Coupled n s) {i : Nat} {q : QueueState φ (ThreadId m)}
    {u : ThreadId m} {p : Monitor.Position (BlockingQueue.Op φ) (BlockingQueue.Result φ)}
    (hq : q.positions = update (s.queues i).positions u p)
    (hu : ∀ j, j ≠ i → (s.queues j).positions u = .outside) (v : ThreadId m) (j k : Nat)
    (hne : j ≠ k) (hj : (update s.queues i q j).positions v ≠ .outside) :
    (update s.queues i q k).positions v = .outside := by
  by_cases hv : v = u
  · subst hv
    by_cases hji : j = i
    · subst hji
      rw [Function.update_of_ne (Ne.symm hne)]
      exact hu k (Ne.symm hne)
    · rw [Function.update_of_ne hji] at hj
      exact absurd (hu j hji) hj
  · rw [positions_update hq j (fun _ => hv)] at hj
    rw [positions_update hq k (fun _ => hv)]
    exact h.single v j k hne hj

theorem Coupled.call (h : Coupled n s) {i : Nat} {u : ThreadId m} {o : BlockingQueue.Op φ}
    (hi : i < n) (hout : s.Outside u)
    (hproducer : ∀ p, u = some p → s.wake.producers p = .idle ∧ ∃ f, o = .push f)
    (howner : u = none → o = .popAll ∧ ∃ resume, s.wake.loopThread = .draining i resume) :
    Coupled n (s.call i u o) := by
  have hother : ∀ j v, (j = i → v ≠ u) →
      ((s.call i u o).queues j).positions v = (s.queues j).positions v :=
    fun j v hne => positions_update rfl j hne
  have hself : ((s.call i u o).queues i).positions u = .entering o := by
    simp [System.call]
  constructor
  · intro j
    by_cases hj : j = i
    · subst hj
      exact (h.shared j).trans (by simp [System.call])
    · exact (h.shared j).trans (by simp [System.call, hj])
  · exact h.single_update rfl fun j _ => hout j
  · intro p j o' ho
    by_cases hp : j = i ∧ some p = u
    · obtain ⟨rfl, rfl⟩ := hp
      rw [hself] at ho
      cases ho
      obtain ⟨hidle, f, hf⟩ := hproducer p rfl
      exact ⟨hi, hidle, f, hf⟩
    · rw [hother j (some p) fun hj heq => hp ⟨hj, heq⟩] at ho
      exact h.producer p j o' ho
  · intro j o' ho
    by_cases hp : j = i ∧ none = u
    · obtain ⟨rfl, rfl⟩ := hp
      rw [hself] at ho
      cases ho
      exact ⟨hi, howner rfl⟩
    · rw [hother j none fun hj heq => hp ⟨hj, heq⟩] at ho
      exact h.owner j o' ho
  · intro j hj
    by_cases hp : j = i ∧ none = u
    · obtain ⟨rfl, hu⟩ := hp
      exact .inl (howner hu.symm).2
    · rw [hother j none fun hj heq => hp ⟨hj, heq⟩] at hj
      exact h.leaving j hj
  · exact h.foreign

/-- `push` takes effect: the thread goes on to wake the loop up. -/
theorem Coupled.push (h : Coupled n s) {i : Nat} {q : QueueState φ (ThreadId m)} {p : Fin m}
    {f : φ} (hstep : Monitor.Advance (operations capacity) (s.queues i) q)
    (hevent : q.history = (s.queues i).history ++ [(some p, .push f, .pushed)]) :
    Coupled n { wake := s.wake.push p i f, queues := update s.queues i q } ∧
      EventLoop.Step n capacity s.wake (s.wake.push p i f) := by
  obtain ⟨hdo, hbegun, hq⟩ := hstep.of_event hevent
  obtain ⟨hi, hidle, _⟩ := h.producer p i _ hbegun
  obtain ⟨hroom, _, hshared⟩ := BlockingQueue.push_eq_some hdo
  have hout : ∀ j, j ≠ i → (s.queues j).positions (some p) = .outside :=
    fun j hj => h.single _ i j (Ne.symm hj) (ne_outside_of_begun hbegun)
  refine ⟨?_, .push p i f hidle hi (by rw [h.shared]; exact hroom)⟩
  constructor
  · intro j
    by_cases hj : j = i
    · subst hj
      simp [State.push, h.shared, hshared]
    · simp [State.push, hj, h.shared]
  · exact h.single_update hq hout
  · intro p' j o ho
    by_cases hp : p' = p
    · -- the thread has left its operation
      subst hp
      by_cases hj : j = i
      · subst hj
        simp only [Function.update_self, hq] at ho
        cases ho
      · simp only [Function.update_of_ne hj, hout j hj] at ho
        cases ho
    · have hsome : (some p' : ThreadId m) ≠ some p := fun heq => hp (Option.some.inj heq)
      simp only [positions_update hq j fun _ => hsome] at ho
      obtain ⟨hj, hidle', hf⟩ := h.producer p' j o ho
      refine ⟨hj, ?_, hf⟩
      simp only [State.push]
      rwa [Function.update_of_ne fun heq => hp (Fin.ext heq)]
  · intro j o ho
    simp only [positions_update (v := none) hq j fun _ heq => by cases heq] at ho
    exact h.owner j o ho
  · intro j hj
    simp only [positions_update (v := none) hq j fun _ heq => by cases heq] at hj
    exact h.leaving j hj
  · intro p' hp'
    have hne : p' ≠ p := fun heq => absurd p.isLt (by omega)
    simp only [State.push]
    rw [Function.update_of_ne hne]
    exact h.foreign p' hp'

/-- `pop_all` takes effect: the loop has a batch to run. -/
theorem Coupled.popAll (h : Coupled n s) {i : Nat} {q : QueueState φ (ThreadId m)}
    {batch : List φ} {resume : Option (List Nat)}
    (hl : s.wake.loopThread = .draining i resume)
    (hstep : Monitor.Advance (operations capacity) (s.queues i) q)
    (hevent : q.history = (s.queues i).history ++ [(none, .popAll, .poppedAll batch)]) :
    Coupled n
      { wake := { s.wake with
          queues := update s.wake.queues i []
          drained := update s.wake.drained i (s.wake.pushed i).length
          loopThread := .executing i batch resume }
        queues := update s.queues i q } ∧
      EventLoop.Step n capacity s.wake { s.wake with
        queues := update s.wake.queues i []
        drained := update s.wake.drained i (s.wake.pushed i).length
        loopThread := .executing i batch resume } := by
  obtain ⟨hdo, hbegun, hq⟩ := hstep.of_event hevent
  obtain ⟨hi, _, _⟩ := h.owner i _ hbegun
  obtain ⟨hbatch, hempty⟩ := BlockingQueue.popAll_eq_some hdo
  replace hbatch : s.wake.queues i = batch := by
    rw [h.shared]
    exact (BlockingQueue.Result.poppedAll.inj hbatch).symm
  have hout : ∀ j, j ≠ i → (s.queues j).positions none = .outside :=
    fun j hj => h.single _ i j (Ne.symm hj) (ne_outside_of_begun hbegun)
  constructor
  · constructor
    · intro j
      by_cases hj : j = i
      · subst hj
        simp [hempty]
      · simp [hj, h.shared]
    · exact h.single_update hq hout
    · intro p j o ho
      simp only [positions_update (v := some p) hq j fun _ heq => by cases heq] at ho
      exact h.producer p j o ho
    · intro j o ho
      by_cases hj : j = i
      · subst hj
        simp only [Function.update_self, hq] at ho
        cases ho
      · simp only [Function.update_of_ne hj, hout j hj] at ho
        cases ho
    · intro j hj
      by_cases hji : j = i
      · subst hji
        exact .inr ⟨batch, resume, rfl⟩
      · simp only [Function.update_of_ne hji] at hj
        exact absurd (hout j hji) hj
    · exact h.foreign
  · have hdrain : EventLoop.Step n capacity s.wake _ := .drain i resume hl hi
    rwa [hbatch] at hdrain

/-- The rest of the loop changes, and the threads that are in an operation of a queue have not
moved. -/
theorem Coupled.apart (h : Coupled n s) {w : State φ} (hqueues : w.queues = s.wake.queues)
    (hloop : w.loopThread ≠ s.wake.loopThread → s.Outside none)
    (hproducers : ∀ p, w.producers p ≠ s.wake.producers p →
      ∃ hp : p < m, s.Outside (some ⟨p, hp⟩)) : Coupled n { s with wake := w } where
  shared i := by rw [hqueues, h.shared]
  single := h.single
  producer p i o ho := by
    obtain ⟨hi, hidle, hf⟩ := h.producer p i o ho
    refine ⟨hi, ?_, hf⟩
    by_cases hsame : w.producers p = s.wake.producers p
    · rw [hsame, hidle]
    · obtain ⟨_, hout⟩ := hproducers p hsame
      exact absurd (hout i) (ne_outside_of_begun ho)
  owner i o ho := by
    obtain ⟨hi, hpop, hl⟩ := h.owner i o ho
    refine ⟨hi, hpop, ?_⟩
    by_cases hsame : w.loopThread = s.wake.loopThread
    · rwa [hsame]
    · exact absurd (hloop hsame i) (ne_outside_of_begun ho)
  leaving i hi := by
    by_cases hsame : w.loopThread = s.wake.loopThread
    · rw [hsame]
      exact h.leaving i hi
    · exact absurd (hloop hsame i) hi
  foreign p hp := by
    by_cases hsame : w.producers p = s.wake.producers p
    · rw [hsame, h.foreign p hp]
    · obtain ⟨hlt, _⟩ := hproducers p hsame
      omega

theorem Coupled.advance (h : Coupled n s) (hstep : Advance n capacity s t) : Coupled n t := by
  cases hstep with
  | inQueue i q hq hsame =>
    obtain ⟨hshared, hbegun⟩ := hq.begun_eq hsame
    exact h.inQueue hshared hbegun fun u hu => hq.outside hu
  | push i q p f hq hevent => exact (h.push hq hevent).1
  | popAll i q batch resume hl hq hevent => exact (h.popAll hl hq hevent).1
  | callPopAll i resume hl hi hout =>
    exact h.call hi hout (fun p hp => by cases hp) fun _ => ⟨rfl, resume, hl⟩
  | apart w _ hqueues hloop hproducers _ _ =>
    exact h.apart hqueues (fun hne => (hloop hne).1) hproducers

theorem Coupled.step (h : Coupled n s) (hstep : Step n capacity s t) : Coupled n t := by
  cases hstep with
  | advance hstep => exact h.advance hstep
  | run p i f hp hi hout =>
    refine h.call hi hout (fun p' heq => ?_) fun heq => by cases heq
    cases heq
    exact ⟨hp, f, rfl⟩
  | askToStop p _ hout =>
    refine h.apart rfl (fun hne => absurd rfl hne) fun p' hne => ?_
    by_cases hp' : p' = p
    · subst hp'
      exact ⟨p.isLt, hout⟩
    · exact absurd (Function.update_of_ne hp' _ _) hne
  | spurious i u o hp =>
    refine h.inQueue rfl (Monitor.begun_update (by rw [hp]; rfl)) fun v hv => ?_
    have hne : v ≠ u := by
      intro heq
      rw [heq, hp] at hv
      cases hv
    simp [Function.update_of_ne hne, hv]
  | otherDescriptors hl =>
    have hout : s.Outside none := by
      intro i
      by_contra hne
      cases h.leaving i hne with
      | inl hex =>
        obtain ⟨resume, hdraining⟩ := hex
        rw [hl] at hdraining
        cases hdraining
      | inr hex =>
        obtain ⟨batch, resume, hexecuting⟩ := hex
        rw [hl] at hexecuting
        cases hexecuting
    exact h.apart rfl (fun _ => hout) fun p hne => absurd rfl hne

/-! ### The two views of a run -/

/-- A step is one of the event loop whose queues are taken as one step each, or none. -/
theorem Coupled.wake_step (h : Coupled n s) (hstep : Step n capacity s t) :
    t.wake = s.wake ∨ EventLoop.Step n capacity s.wake t.wake := by
  cases hstep with
  | advance hstep =>
    cases hstep with
    | inQueue i q _ _ => exact .inl rfl
    | push i q p f hq hevent => exact .inr (h.push hq hevent).2
    | popAll i q batch resume hl hq hevent => exact .inr (h.popAll hl hq hevent).2
    | callPopAll i resume _ _ _ => exact .inl rfl
    | apart w hw _ _ _ _ _ => exact .inr hw
  | run p i f _ _ _ => exact .inl rfl
  | askToStop p hp _ => exact .inr (.askToStop p hp)
  | spurious i u o _ => exact .inl rfl
  | otherDescriptors hl =>
    exact .inr (.poll [] hl List.nodup_nil fun i hi => absurd hi List.not_mem_nil)

/-- A step is one of the threads at queue `i`, or none. -/
theorem queue_step (hstep : Step n capacity s t) (i : Nat) : t.queues i = s.queues i ∨
    Monitor.Step (operations capacity) (s.queues i) (t.queues i) := by
  have hupdate : ∀ {j : Nat} {q : QueueState φ (ThreadId m)},
      Monitor.Step (operations capacity) (s.queues j) q → update s.queues j q i = s.queues i ∨
        Monitor.Step (operations capacity) (s.queues i) (update s.queues j q i) := by
    intro j q hq
    by_cases hi : i = j
    · subst hi
      rw [Function.update_self]
      exact .inr hq
    · exact .inl (Function.update_of_ne hi _ _)
  cases hstep with
  | advance hstep =>
    cases hstep with
    | inQueue j q hq _ => exact hupdate (.advance hq)
    | push j q p f hq _ => exact hupdate (.advance hq)
    | popAll j q batch resume _ hq _ => exact hupdate (.advance hq)
    | callPopAll j resume _ _ hout => exact hupdate (.call none .popAll (hout j))
    | apart w _ _ _ _ _ _ => exact .inl rfl
  | run p j f _ _ hout => exact hupdate (.call (some p) (.push f) (hout j))
  | askToStop p _ _ => exact .inl rfl
  | spurious j u o hp => exact hupdate (.spurious u o hp)
  | otherDescriptors _ => exact .inl rfl

/-- What holds of every reachable state of the two views, holds along a run. -/
structure Sound (n capacity : Nat) (s : System m φ) : Prop where
  coupled : Coupled n s
  wake : Reaches (EventLoop.Step n capacity) (State.initial φ) s.wake
  queue : ∀ i, Reaches (Monitor.Step (operations capacity)) (Monitor.State.initial []) (s.queues i)

theorem sound_of_reaches
    (hr : Reaches (Step n capacity) (System.initial m φ) s) : Sound n capacity s := by
  refine hr.invariant ⟨coupled_initial n, .refl, fun _ => .refl⟩ fun a b h hstep => ?_
  refine ⟨h.coupled.step hstep, ?_, fun i => ?_⟩
  · cases h.coupled.wake_step hstep with
    | inl hsame =>
      rw [hsame]
      exact h.wake
    | inr hwake => exact h.wake.tail hwake
  · cases queue_step hstep i with
    | inl hsame =>
      rw [hsame]
      exact h.queue i
    | inr hqueue => exact (h.queue i).tail hqueue

/-! ### No thread is stuck -/

/-- Where no thread can go on, none can in an operation of queue `i`. -/
theorem Sound.settled (h : Sound n capacity s) (hstuck : ∀ t, ¬ Advance n capacity s t)
    (i : Nat) : Monitor.Settled (operations capacity) (s.queues i) := by
  intro q hq
  cases hq.history_cases with
  | inl hsame => exact hstuck _ (.inQueue i q hq hsame)
  | inr hex =>
    obtain ⟨u, o, r, hevent⟩ := hex
    obtain ⟨hdo, hbegun, _⟩ := hq.of_event hevent
    cases u with
    | none =>
      obtain ⟨_, rfl, resume, hl⟩ := h.coupled.owner i o hbegun
      obtain ⟨rfl, _⟩ := BlockingQueue.popAll_eq_some hdo
      exact hstuck _ (.popAll i q _ resume hl hq hevent)
    | some p =>
      obtain ⟨_, _, f, rfl⟩ := h.coupled.producer p i o hbegun
      obtain ⟨_, rfl, _⟩ := BlockingQueue.push_eq_some hdo
      exact hstuck _ (.push i q p f hq hevent)

theorem Sound.exclusive (h : Sound n capacity s) (i : Nat) : Monitor.Exclusive (s.queues i) :=
  (h.queue i).invariant (Monitor.exclusive_initial _) fun _ _ hI hstep => hI.step hstep

/-- Where no thread can go on, each is outside the queues, or is a producer that waits. -/
theorem Sound.outside_or_push (h : Sound n capacity s)
    (hstuck : ∀ t, ¬ Advance n capacity s t) (i : Nat) (u : ThreadId m) :
    (s.queues i).positions u = .outside ∨
      ∃ p f, u = some p ∧ (s.queues i).positions u = .waiting (.push f) := by
  cases Monitor.outside_or_waiting_of_settled (h.exclusive i) (h.settled hstuck i) u with
  | inl hout => exact .inl hout
  | inr hex =>
    obtain ⟨o, hwait⟩ := hex
    have hbegun : ((s.queues i).positions u).begun = some o := by
      rw [hwait]
      rfl
    cases u with
    | none =>
      obtain ⟨_, rfl, _⟩ := h.coupled.owner i o hbegun
      have hconditions : Monitor.OnConditions (operations capacity) (s.queues i) :=
        (h.queue i).invariant (Monitor.onConditions_initial _ _)
          fun _ _ hI hstep => hI.step hstep
      obtain ⟨c, hc⟩ := hconditions none _ hwait
      cases hc
    | some p =>
      obtain ⟨_, _, f, rfl⟩ := h.coupled.producer p i o hbegun
      exact .inr ⟨p, f, rfl, hwait⟩

theorem Sound.owner_outside (h : Sound n capacity s)
    (hstuck : ∀ t, ¬ Advance n capacity s t) : s.Outside none := by
  intro i
  cases h.outside_or_push hstuck i none with
  | inl hout => exact hout
  | inr hex =>
    obtain ⟨p, f, heq, _⟩ := hex
    cases heq

/-- The loop thread goes on outside the queues. -/
theorem advance_loop {w : State φ} (hout : s.Outside none)
    (hstep : EventLoop.Step n capacity s.wake w) (hqueues : w.queues = s.wake.queues)
    (hproducers : w.producers = s.wake.producers)
    (hdraining : ∀ i resume, s.wake.loopThread = .draining i resume → n ≤ i)
    (hpoll : s.wake.loopThread = .polling → w.loopThread ≠ .dispatching []) :
    Advance n capacity s { s with wake := w } :=
  .apart w hstep hqueues (fun _ => ⟨hout, hdraining⟩)
    (fun p hne => absurd (congrFun hproducers p) hne) (fun p hp => by rw [hproducers, hp]) hpoll

/-- A producer goes on outside the queues. -/
theorem advance_producer {w : State φ} {p : Nat} {v : Producer} (hp : p < m)
    (hout : s.Outside (some ⟨p, hp⟩)) (hstep : EventLoop.Step n capacity s.wake w)
    (hqueues : w.queues = s.wake.queues) (hproducers : w.producers = update s.wake.producers p v)
    (hbusy : s.wake.producers p ≠ .idle) (hloop : w.loopThread = s.wake.loopThread) :
    Advance n capacity s { s with wake := w } := by
  refine .apart w hstep hqueues (fun hne => absurd hloop hne) (fun q hne => ?_) (fun q hq => ?_)
    fun hpoll => ?_
  · by_cases hqp : q = p
    · subst hqp
      exact ⟨hp, hout⟩
    · rw [hproducers, Function.update_of_ne hqp] at hne
      exact absurd rfl hne
  · have hqp : q ≠ p := by
      intro heq
      rw [heq] at hq
      exact hbusy hq
    rw [hproducers, Function.update_of_ne hqp, hq]
  · rw [hloop, hpoll]
    exact fun heq => by cases heq

/-- Where no thread can go on, no producer has a wake-up to do. -/
theorem Sound.producers_idle (h : Sound n capacity s)
    (hstuck : ∀ t, ¬ Advance n capacity s t) (p : Nat) : s.wake.producers p = .idle := by
  by_cases hp : p < m
  swap
  · exact h.coupled.foreign p (by omega)
  by_contra hbusy
  have hout : s.Outside (some ⟨p, hp⟩) := by
    intro i
    cases h.outside_or_push hstuck i (some ⟨p, hp⟩) with
    | inl hout => exact hout
    | inr hex =>
      obtain ⟨_, f, _, hwait⟩ := hex
      exact absurd (h.coupled.producer ⟨p, hp⟩ i _ (by rw [hwait]; rfl)).2.1 hbusy
  cases hw : s.wake.producers p with
  | idle => exact hbusy hw
  | waking i =>
    cases hlamp : s.wake.pilotLamps i with
    | true =>
      exact hstuck _ (advance_producer hp hout (.exchangeLit p i hw hlamp) rfl rfl hbusy rfl)
    | false =>
      exact hstuck _ (advance_producer hp hout (.exchangeOff p i hw hlamp) rfl rfl hbusy rfl)
  | signalling i =>
    exact hstuck _ (advance_producer hp hout (.write p i hw) rfl rfl hbusy rfl)

/-- Where no thread can go on, the loop has returned, or `epoll_wait` has nothing to report. -/
theorem Sound.polling (h : Sound n capacity s) (hstuck : ∀ t, ¬ Advance n capacity s t) :
    s.wake.loopThread = .returned ∨
      s.wake.loopThread = .polling ∧ ∀ i < n, s.wake.eventfds i = 0 := by
  have hout := h.owner_outside hstuck
  cases hl : s.wake.loopThread with
  | returned => exact .inl rfl
  | polling =>
    refine .inr ⟨rfl, fun i hi => ?_⟩
    by_contra hne
    have hready : ∀ j ∈ [i], j < n ∧ 0 < s.wake.eventfds j := by
      intro j hj
      obtain rfl := List.mem_singleton.mp hj
      exact ⟨hi, by omega⟩
    exact hstuck _ (advance_loop hout (.poll [i] hl (List.nodup_singleton i) hready) rfl rfl
      (by simp [hl]) (by simp))
  | checking =>
    exact absurd (advance_loop hout (.continueLoop hl) rfl rfl (by simp [hl]) (by simp))
      (hstuck _)
  | clearing i ready =>
    exact absurd (advance_loop hout (.clear i ready hl) rfl rfl (by simp [hl]) (by simp [hl]))
      (hstuck _)
  | dispatching ready =>
    cases ready with
    | nil =>
      exact absurd (advance_loop hout (.dispatched hl) rfl rfl (by simp [hl]) (by simp [hl]))
        (hstuck _)
    | cons i ready =>
      exact absurd (advance_loop hout (.read i ready hl) rfl rfl (by simp [hl]) (by simp))
        (hstuck _)
  | executing i batch resume =>
    cases batch with
    | nil =>
      exact absurd (advance_loop hout (.nextQueue i resume hl) rfl rfl (by simp [hl]) (by simp))
        (hstuck _)
    | cons f rest =>
      exact absurd (advance_loop hout (.execute i f rest resume hl) rfl rfl (by simp [hl])
        (by simp [State.execute])) (hstuck _)
  | draining i resume =>
    by_cases hi : i < n
    · exact absurd (.callPopAll i resume hl hi hout) (hstuck _)
    have hle : ∀ j rest, s.wake.loopThread = .draining j rest → n ≤ j := by
      intro j rest hj
      rw [hl] at hj
      cases hj
      omega
    cases resume with
    | none =>
      refine absurd (advance_loop hout (.finish i hl (by omega)) rfl rfl hle ?_) (hstuck _)
      simp [hl]
    | some ready =>
      refine absurd (advance_loop hout (.resume i ready hl (by omega)) rfl rfl hle ?_) (hstuck _)
      simp [hl]

end Step

/-- Producers and loop never block each other for good, even though the queues are bounded: as
long as some functor has not run or some thread is in `run`, a thread can go on, unless the loop
has returned. -/
theorem advances_or_all_run {requested capacity : Nat} (hcapacity : 0 < capacity)
    {s : System m φ}
    (hr : Reaches (Step (max requested 1) capacity) (System.initial m φ) s) :
    (∃ t, Advance (max requested 1) capacity s t) ∨ s.wake.loopThread = .returned ∨
      (s.wake.loopThread = .polling ∧ (∀ t, s.Outside t) ∧
        (∀ p, s.wake.producers p = .idle) ∧
        ∀ i < max requested 1, s.wake.queues i = [] ∧ s.wake.executed i = s.wake.pushed i) := by
  by_cases hex : ∃ t, Advance (max requested 1) capacity s t
  · exact .inl hex
  have hstuck : ∀ t, ¬ Advance (max requested 1) capacity s t := fun t ht => hex ⟨t, ht⟩
  have hn : 0 < max requested 1 := by omega
  have h := sound_of_reaches hr
  have hidle := h.producers_idle hstuck
  right
  cases h.polling hstuck with
  | inl hreturned => exact .inl hreturned
  | inr hpolling =>
    obtain ⟨hl, hzero⟩ := hpolling
    have hawake : Awake (max requested 1) s.wake :=
      h.wake.invariant (awake_initial _) fun _ _ hI hstep => hI.step hn hstep
    have hempty : ∀ i < max requested 1, s.wake.queues i = [] := by
      intro i hi
      by_contra hne
      obtain hw | hpos | hdrain := hawake.queued i hi hne
      · obtain ⟨p, hp⟩ := hw
        simp [hidle p] at hp
      · simp [hzero i hi] at hpos
      · simp [WillDrain, hl] at hdrain
    refine .inr ⟨hl, fun u i => ?_, hidle, fun i hi => ⟨hempty i hi, ?_⟩⟩
    · cases h.outside_or_push hstuck i u with
      | inl hout => exact hout
      | inr hex =>
        -- the queue has room, so a wake-up would have been lost
        obtain ⟨p, f, rfl, hwait⟩ := hex
        obtain ⟨hi, _⟩ := h.coupled.producer p i _ (by rw [hwait]; rfl)
        have hcredited : Monitor.Credited (operations capacity) (BlockingQueue.room capacity)
            (s.queues i) :=
          (h.queue i).invariant (Monitor.credited_initial _)
            fun _ _ hI hstep => hI.step (BlockingQueue.rooms capacity) hstep
        have hroom := Monitor.room_eq_zero_of_settled (c := .queueNotFull) (h.exclusive i)
          hcredited (h.settled hstuck i) hwait rfl
        rw [BlockingQueue.room, ← h.coupled.shared i, hempty i hi, List.length_nil] at hroom
        omega
    · have hordered : Ordered s.wake i :=
        h.wake.invariant (I := (Ordered · i)) (ordered_initial i) fun _ _ hI hstep => hI.step hstep
      have hhistory := hordered.history
      rw [hempty i hi, batch, hl, List.append_nil, List.append_nil] at hhistory
      exact hhistory.symm

/-- A thread is in `run` while the loop is not polling yet. -/
theorem advances_of_run : ∃ s : System 1 Nat,
    (s.queues 0).positions (some 0) = .entering (.push 7) ∧
      ((∃ t, Advance 1 1000 s t) ∨ s.wake.loopThread = .returned ∨
        (s.wake.loopThread = .polling ∧ (∀ t, s.Outside t) ∧
          (∀ p, s.wake.producers p = .idle) ∧
          ∀ i < 1, s.wake.queues i = [] ∧ s.wake.executed i = s.wake.pushed i)) := by
  have hrun : Reaches (Step (max 1 1) 1000) (System.initial 1 Nat)
      ((System.initial 1 Nat).call 0 (some 0) (.push 7)) :=
    .single (.run 0 0 7 rfl (by decide) fun _ => rfl)
  exact ⟨_, rfl, advances_or_all_run (by decide) hrun⟩

end XubinhServer.EventLoop.Bounded

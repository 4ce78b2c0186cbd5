import XubinhServer.Lib.Monitor

/-! `util::BlockingQueue`, the functor queue of an event loop unless the lock-free one is chosen.
The steps of its threads are those of `util::MutexGuard` and `util::ConditionVariable`. -/
namespace XubinhServer.BlockingQueue

open Monitor Transition

variable {α θ : Type}

inductive Condition where
  | queueNotFull
  | queueNotEmpty
  deriving DecidableEq

inductive Op (α : Type) where
  | push (element : α)
  | pop
  | popAll

inductive Result (α : Type) where
  | pushed
  | popped (element : α)
  | poppedAll (elements : List α)
  deriving DecidableEq

/-- `push` waits while `_queue.size() < _capacity` is false. -/
def push (capacity : Nat) (element : α) (queue : List α) : Option (Result α × List α) :=
  if queue.length < capacity then some (.pushed, queue ++ [element]) else none

/-- `pop` waits while `!_queue.empty()` is false. -/
def pop : List α → Option (Result α × List α)
  | [] => none
  | front :: queue => some (.popped front, queue)

/-- `pop_all` swaps the queue with an empty one and never waits. -/
def popAll (queue : List α) : Option (Result α × List α) := some (.poppedAll queue, [])

def operations (capacity : Nat) : Operations (List α) (Op α) Condition (Result α) where
  attempt
    | .push element => push capacity element
    | .pop => pop
    | .popAll => popAll
  waitsOn
    | .push _ => some .queueNotFull
    | .pop => some .queueNotEmpty
    | .popAll => none
  signals
    | .push _ => (.queueNotEmpty, .one)
    | .pop => (.queueNotFull, .one)
    | .popAll => (.queueNotFull, .all)
  waits o queue h := by
    cases o with
    | push element => exact ⟨_, rfl⟩
    | pop => exact ⟨_, rfl⟩
    | popAll => cases h

/-- The queue on its own: any number of threads call `push`, `pop` and `pop_all`. -/
abbrev QueueState (α θ : Type) := State (List α) (Op α) (Result α) θ

/-! ### The elements -/

def pushedOf (e : θ × Op α × Result α) : List α :=
  match e.2.1 with
  | .push element => [element]
  | _ => []

def takenOf (e : θ × Op α × Result α) : List α :=
  match e.2.2 with
  | .pushed => []
  | .popped element => [element]
  | .poppedAll elements => elements

theorem push_eq_some {capacity : Nat} {element : α} {queue queue' : List α} {r : Result α}
    (h : push capacity element queue = some (r, queue')) :
    queue.length < capacity ∧ r = .pushed ∧ queue' = queue ++ [element] := by
  by_cases hroom : queue.length < capacity
  · rw [push, if_pos hroom] at h
    simp only [Option.some.injEq, Prod.mk.injEq] at h
    exact ⟨hroom, h.1.symm, h.2.symm⟩
  · rw [push, if_neg hroom] at h
    cases h

theorem pop_eq_some {queue queue' : List α} {r : Result α} (h : pop queue = some (r, queue')) :
    ∃ front, r = .popped front ∧ queue = front :: queue' := by
  cases queue with
  | nil => cases h
  | cons front rest =>
    simp only [pop, Option.some.injEq, Prod.mk.injEq] at h
    exact ⟨front, h.1.symm, by rw [h.2]⟩

theorem popAll_eq_some {queue queue' : List α} {r : Result α}
    (h : popAll queue = some (r, queue')) : r = .poppedAll queue ∧ queue' = [] := by
  simp only [popAll, Option.some.injEq, Prod.mk.injEq] at h
  exact ⟨h.1.symm, h.2.symm⟩

/-- Elements leave the queue in the order in which they have come in, and there is never more
than its capacity in it. -/
structure InOrder (capacity : Nat) (events : List (θ × Op α × Result α)) (queue : List α) :
    Prop where
  elements : events.flatMap pushedOf = events.flatMap takenOf ++ queue
  bounded : queue.length ≤ capacity

theorem InOrder.attempt {capacity : Nat} {events : List (θ × Op α × Result α)}
    {queue queue' : List α} {t : θ} {o : Op α} {r : Result α} (h : InOrder capacity events queue)
    (hdo : (operations capacity).attempt o queue = some (r, queue')) :
    InOrder capacity (events ++ [(t, o, r)]) queue' := by
  cases o with
  | push element =>
    obtain ⟨hroom, rfl, rfl⟩ := push_eq_some hdo
    constructor
    · simp [pushedOf, takenOf, h.elements]
    · rw [List.length_append]
      exact hroom
  | pop =>
    obtain ⟨front, rfl, rfl⟩ := pop_eq_some hdo
    constructor
    · simp [pushedOf, takenOf, h.elements]
    · have hbounded := h.bounded
      rw [List.length_cons] at hbounded
      omega
  | popAll =>
    obtain ⟨rfl, rfl⟩ := popAll_eq_some hdo
    constructor
    · simp [pushedOf, takenOf, h.elements]
    · exact Nat.zero_le _

theorem InOrder.of_replays {capacity : Nat} {events : List (θ × Op α × Result α)}
    {queue : List α} (h : Replays (operations capacity) [] events queue) :
    InOrder capacity events queue :=
  h.invariant ⟨rfl, Nat.zero_le _⟩ fun _ _ _ _ _ _ hI hdo => hI.attempt hdo

/-! ### The waits -/

/-- How many elements fit in, and how many can be taken. -/
def room (capacity : Nat) : Condition → List α → Nat
  | .queueNotFull, queue => capacity - queue.length
  | .queueNotEmpty, queue => queue.length

theorem rooms (capacity : Nat) : Rooms (operations (α := α) capacity) (room capacity) where
  empty {o c queue} hc h := by
    cases o with
    | push element =>
      cases hc
      by_cases hroom : queue.length < capacity
      · simp [operations, push, hroom] at h
      · rw [room]
        omega
    | pop =>
      cases hc
      cases queue with
      | nil => rfl
      | cons front rest => cases h
    | popAll => cases h
  takes {o c queue r queue'} hc h := by
    cases o with
    | push element =>
      cases hc
      obtain ⟨hroom, rfl, rfl⟩ := push_eq_some h
      rw [room, room, List.length_append, List.length_singleton]
      omega
    | pop =>
      cases hc
      obtain ⟨front, rfl, rfl⟩ := pop_eq_some h
      exact Nat.lt_succ_self _
    | popAll => cases hc
  one {o c queue r queue'} hs h := by
    cases o with
    | push element =>
      cases hs
      obtain ⟨hroom, rfl, rfl⟩ := push_eq_some h
      rw [room, room, List.length_append, List.length_singleton]
    | pop =>
      cases hs
      obtain ⟨front, rfl, rfl⟩ := pop_eq_some h
      rw [room, room, List.length_cons]
      omega
    | popAll => cases hs
  others {o c queue r queue'} hne h := by
    cases o with
    | push element =>
      obtain ⟨hroom, rfl, rfl⟩ := push_eq_some h
      cases c with
      | queueNotFull =>
        rw [room, room, List.length_append]
        omega
      | queueNotEmpty => exact absurd rfl hne
    | pop =>
      obtain ⟨front, rfl, rfl⟩ := pop_eq_some h
      cases c with
      | queueNotFull => exact absurd rfl hne
      | queueNotEmpty => exact Nat.le_succ _
    | popAll =>
      obtain ⟨rfl, rfl⟩ := popAll_eq_some h
      cases c with
      | queueNotFull => exact absurd rfl hne
      | queueNotEmpty => exact Nat.zero_le _

section Run

variable [DecidableEq θ] {capacity : Nat} {s : QueueState α θ}

theorem recorded_of_reaches (h : Reaches (Step (operations capacity)) (State.initial []) s) :
    Recorded (operations capacity) [] s :=
  h.invariant (recorded_initial _ _) fun _ _ hI hstep => hI.step hstep

theorem exclusive_of_reaches (h : Reaches (Step (operations capacity)) (State.initial []) s) :
    Exclusive s :=
  h.invariant (exclusive_initial _) fun _ _ hI hstep => hI.step hstep

/-- The calls take effect one after the other, each between its begin and its return; so all
threads together see one first-in-first-out queue that never exceeds its capacity. -/
theorem fifo_of_reaches (h : Reaches (Step (operations capacity)) (State.initial []) s) :
    Replays (operations capacity) [] s.history s.shared ∧
      s.history.flatMap pushedOf = s.history.flatMap takenOf ++ s.shared ∧
      s.shared.length ≤ capacity ∧
      ∀ t, byThread t s.history = byThread t s.returned ++ (s.positions t).done t := by
  have hrecorded := recorded_of_reaches h
  have horder := InOrder.of_replays hrecorded.replays
  exact ⟨hrecorded.replays, horder.elements, horder.bounded, hrecorded.own⟩

/-- A `push` that has not returned yet is seen by the next `pop`. -/
theorem fifo_of_push_pop : ∃ s : QueueState Nat Bool, s.shared = [] ∧
    s.history = [(false, .push 7, .pushed), (true, .pop, .popped 7)] ∧
    s.history.flatMap pushedOf = s.history.flatMap takenOf ++ s.shared := by
  have hrun : ∃ s : QueueState Nat Bool,
      Reaches (Step (operations 1)) (State.initial []) s ∧ s.shared = [] ∧
        s.history = [(false, .push 7, .pushed), (true, .pop, .popped 7)] :=
    ⟨_, .head (.call false (.push 7) rfl) <| .head (.call true .pop rfl) <|
      .head (.advance (.lock false (.push 7) (.inl rfl) rfl)) <|
      .head (.advance (.perform false (.push 7) .pushed [7] rfl rfl)) <|
      .head (.advance (.unlock false (.push 7) .pushed rfl)) <|
      .head (.advance (.lock true .pop (.inl rfl) rfl)) <|
      .single (.advance (.perform true .pop (.popped 7) [] rfl rfl)), rfl, rfl⟩
  obtain ⟨s, hrun, hempty, hhistory⟩ := hrun
  exact ⟨s, hempty, hhistory, (fifo_of_reaches hrun).2.1⟩

variable [Fintype θ]

/-- The calls under way end after so many steps, or wait; and where they do, a `push` waits at a
full queue only and a `pop` at an empty one only. -/
theorem waits_of_reaches (h : Reaches (Step (operations capacity)) (State.initial []) s) :
    (∀ (run : Nat → QueueState α θ) (n : Nat), run 0 = s →
      (∀ i < n, Advance (operations capacity) (run i) (run (i + 1))) →
      n ≤ Fintype.card θ * (2 * Fintype.card θ + 5)) ∧
    (Settled (operations capacity) s → ∀ t, s.positions t = .outside ∨
      (∃ element, s.positions t = .waiting (.push element)) ∧ s.shared.length = capacity ∨
      s.positions t = .waiting .pop ∧ s.shared = []) := by
  refine ⟨fun _ _ _ hrun => length_le_of_advance hrun, fun hsettled t => ?_⟩
  have hexclusive := exclusive_of_reaches h
  have hcredited : Credited (operations capacity) (room capacity) s :=
    h.invariant (credited_initial _) fun _ _ hI hstep => hI.step (rooms capacity) hstep
  have hroom := fun o c => room_eq_zero_of_settled (u := t) (o := o) (c := c) hexclusive
    hcredited hsettled
  cases outside_or_waiting_of_settled hexclusive hsettled t with
  | inl hout => exact .inl hout
  | inr hwait =>
    obtain ⟨o, hwait⟩ := hwait
    cases o with
    | push element =>
      have hfull : capacity - s.shared.length = 0 := hroom _ _ hwait rfl
      have hbounded := (fifo_of_reaches h).2.2.1
      exact .inr (.inl ⟨⟨element, hwait⟩, by omega⟩)
    | pop => exact .inr (.inr ⟨hwait, List.length_eq_zero_iff.mp (hroom _ _ hwait rfl)⟩)
    | popAll =>
      -- `pop_all` has no condition variable, so nobody waits in it
      have hconditions : OnConditions (operations capacity) s :=
        h.invariant (onConditions_initial _ _) fun _ _ hI hstep => hI.step hstep
      obtain ⟨c, hc⟩ := hconditions t .popAll hwait
      cases hc

end Run

/-- A `pop` waits at the empty queue. -/
theorem waits_of_pop : ∃ s : QueueState Nat Bool, s.positions true = .waiting .pop ∧
    (Settled (operations 1) s → ∀ t, s.positions t = .outside ∨
      (∃ element, s.positions t = .waiting (.push element)) ∧ s.shared.length = 1 ∨
      s.positions t = .waiting .pop ∧ s.shared = []) := by
  have hrun : ∃ s : QueueState Nat Bool,
      Reaches (Step (operations 1)) (State.initial []) s ∧ s.positions true = .waiting .pop :=
    ⟨_, .head (.call true .pop rfl) <| .head (.advance (.lock true .pop (.inl rfl) rfl)) <|
      .single (.advance (.wait true .pop .queueNotEmpty rfl rfl rfl)), rfl⟩
  obtain ⟨s, hrun, hwait⟩ := hrun
  exact ⟨s, hwait, (waits_of_reaches hrun).2⟩

end XubinhServer.BlockingQueue

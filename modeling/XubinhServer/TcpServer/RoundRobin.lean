import Mathlib.Data.Nat.Prime.Basic
import XubinhServer.TcpServer.FunctorQueues

/-! How the connections go round the workers, beyond the range of the counter too. -/
namespace XubinhServer.FunctorQueues

open Transition

open Function (update)

variable {setup : Setup} {s s' s'' : State} {t : Thread} {l : Loop} {index id : Nat}
  {functor : Functor} {checks aborts : Nat → Bool}

/-- The counters have not moved, and each connection is with its loop. -/
structure Keeps (s s' : State) : Prop where
  next : s'.nextLoopIndexCounter = s.nextLoopIndexCounter
  id : s'.tcpConnectionIdCounter = s.tcpConnectionIdCounter
  loops : ∀ id, (s'.connections id).map (·.loop) = (s.connections id).map (·.loop)

namespace Keeps

theorem refl (s : State) : Keeps s s := ⟨rfl, rfl, fun _ => rfl⟩

theorem trans (h : Keeps s s') (h' : Keeps s' s'') : Keeps s s'' :=
  ⟨h'.next.trans h.next, h'.id.trans h.id, fun id => (h'.loops id).trans (h.loops id)⟩

theorem setConnection {c d : Connection} (hc : s.connections id = some c)
    (hloop : d.loop = c.loop) : Keeps s (s.setConnection id d) := by
  refine ⟨rfl, rfl, fun other => ?_⟩
  rw [State.setConnection]
  by_cases ho : other = id
  · simp [ho, hc, hloop]
  · simp [ho]

theorem registerEvent (s : State) (id : Nat) : Keeps s (s.registerEvent id) := by
  rw [State.registerEvent]
  cases hid : s.connections id with
  | none => exact refl s
  | some c => exact setConnection hid rfl

theorem leaveToOwnerThread :
    Keeps s (setup.leaveToOwnerThread s t l functor index) := by
  rw [Setup.leaveToOwnerThread]
  split
  · exact ⟨rfl, rfl, fun _ => rfl⟩
  · exact ⟨rfl, rfl, fun _ => rfl⟩

theorem resetConnection (s : State) (t : Thread) (id : Nat) :
    Keeps s (setup.resetConnection s t id) := by
  rw [Setup.resetConnection]
  cases hid : s.connections id with
  | none => exact refl s
  | some c =>
    dsimp only
    split
    · exact refl s
    · have hclosed : Keeps s (s.setConnection id { c with closed := true }) :=
        setConnection hid rfl
      rw [Setup.closeCallback]
      split
      · exact ⟨hclosed.next, hclosed.id, hclosed.loops⟩
      · exact hclosed.trans leaveToOwnerThread

theorem checkAndAbort (s : State) (id : Nat) : Keeps s (setup.checkAndAbort aborts s id) := by
  rw [Setup.checkAndAbort]
  cases hid : s.connections id with
  | none => exact refl s
  | some c =>
    dsimp only
    split
    · split
      · exact resetConnection s .main id
      · exact refl s
    · exact leaveToOwnerThread

theorem foldl {step : State → Nat → State} (hstep : ∀ s id, Keeps s (step s id))
    (ids : List Nat) (s : State) : Keeps s (ids.foldl step s) := by
  induction ids generalizing s with
  | nil => exact refl s
  | cons id ids ih => exact (hstep s id).trans (ih (step s id))

theorem sweep (s : State) : Keeps s (setup.sweep checks aborts s) :=
  foldl (fun s id => checkAndAbort s id) _ s

theorem runFunctor (s : State) (t : Thread) (functor : Functor) :
    Keeps s (setup.runFunctor checks aborts s t functor) := by
  cases functor with
  | registerEvent id => exact registerEvent s id
  | checkAndAbort id =>
    rw [Setup.runFunctor]
    split
    · exact resetConnection s t id
    · exact refl s
  | close id => exact ⟨rfl, rfl, fun _ => rfl⟩
  | forEachConnection => exact sweep s

/-- Only a new connection gets a loop. -/
theorem of_step (hstep : Step setup s s') :
    Keeps s s' ∨ s.phase = .running ∧ s' = setup.newConnectionCallback s := by
  cases hstep with
  | newConnection hs => exact .inr ⟨hs, rfl⟩
  | dispatch id c hs hid hregistered => exact .inl (resetConnection s _ id)
  | invoke l index functor rest checks aborts hs hfunctor =>
    have hrest : Keeps s (s.setFunctors l index rest) := ⟨rfl, rfl, fun _ => rfl⟩
    exact .inl (hrest.trans (runFunctor _ _ functor))
  | runForEachConnection t checks aborts hs ht =>
    rw [Setup.runForEachConnection]
    split
    · exact .inl (sweep s)
    · exact .inl leaveToOwnerThread
  | stop hs => exact .inl ⟨rfl, rfl, fun _ => rfl⟩
  | destroy hs =>
    have hreset : Keeps s (s.tcpConnectSocketfds.foldl (setup.resetConnection · .main ·) s) :=
      foldl (fun s id => resetConnection s .main id) _ s
    exact .inl ⟨hreset.next, hreset.id, hreset.loops⟩

end Keeps

/-- The worker that gets the connection `id`. -/
def Setup.workerOf (setup : Setup) (id : Nat) : Nat :=
  ((BitVec.ofNat 32 id).signExtend 64).toNat % setup.threadPoolCapacity

/-- The counter goes along with the ids, and each connection has its worker. -/
structure Dealt (setup : Setup) (s : State) : Prop where
  next : s.nextLoopIndexCounter = BitVec.ofNat 32 s.tcpConnectionIdCounter
  loops : ∀ id c, s.connections id = some c → c.loop = .worker (setup.workerOf id)

theorem dealt_initial : Dealt setup .initial where
  next := rfl
  loops _ _ h := by cases h

theorem Dealt.keep (h : Dealt setup s) (hkeeps : Keeps s s') : Dealt setup s' where
  next := by rw [hkeeps.next, hkeeps.id, h.next]
  loops id c hc := by
    have hloop := hkeeps.loops id
    rw [hc, Option.map_some] at hloop
    obtain ⟨d, hd, heq⟩ := Option.map_eq_some_iff.mp hloop.symm
    rw [← heq]
    exact h.loops id d hd

/-- What a new connection gets, as long as the capacity fits into the counter. -/
theorem newConnectionCallback_eq (h : Dealt setup s) (hpos : 0 < setup.threadPoolCapacity)
    (hcapacity : setup.threadPoolCapacity < 2 ^ 31) :
    setup.newConnectionCallback s =
      setup.leaveToOwnerThread { s with
        nextLoopIndexCounter := s.nextLoopIndexCounter + 1
        tcpConnectionIdCounter := s.tcpConnectionIdCounter + 1
        connections := update s.connections s.tcpConnectionIdCounter
          (some ⟨.worker (setup.workerOf s.tcpConnectionIdCounter),
            setup.workerOf s.tcpConnectionIdCounter, false, false⟩)
        tcpConnectSocketfds := s.tcpConnectSocketfds ++ [s.tcpConnectionIdCounter] }
        .main (.worker (setup.workerOf s.tcpConnectionIdCounter))
        (.registerEvent s.tcpConnectionIdCounter) 0 := by
  have hlt : (s.nextLoopIndexCounter.signExtend 64).toNat % setup.threadPoolCapacity <
      setup.workers := by
    rw [workers_of_lt hcapacity]
    exact Nat.mod_lt _ hpos
  have hchosen : setup.chosenLoop s =
      ({ s with nextLoopIndexCounter := s.nextLoopIndexCounter + 1 },
        some (.worker (setup.workerOf s.tcpConnectionIdCounter))) := by
    rw [Setup.chosenLoop, if_pos hpos, Setup.getNextLoop, if_pos hlt, Setup.workerOf, h.next]
  have hother : Loop.owner (.worker (setup.workerOf s.tcpConnectionIdCounter)) ≠ .main := by
    rw [Loop.owner]
    exact Thread.noConfusion
  rw [Setup.newConnectionCallback, hchosen]
  dsimp only
  rw [if_neg hother]
  rfl

/-- A worker has a queue with the index zero. -/
theorem newConnectionCallback_spec (h : Dealt setup s) (hpos : 0 < setup.threadPoolCapacity)
    (hcapacity : setup.threadPoolCapacity < 2 ^ 31) :
    (setup.newConnectionCallback s).phase = s.phase ∧
    (setup.newConnectionCallback s).nextLoopIndexCounter = s.nextLoopIndexCounter + 1 ∧
    (setup.newConnectionCallback s).tcpConnectionIdCounter = s.tcpConnectionIdCounter + 1 ∧
    (setup.newConnectionCallback s).connections = update s.connections s.tcpConnectionIdCounter
      (some ⟨.worker (setup.workerOf s.tcpConnectionIdCounter),
        setup.workerOf s.tcpConnectionIdCounter, false, false⟩) := by
  have hqueue : 0 < setup.numberOfQueues
      (.worker (setup.workerOf s.tcpConnectionIdCounter)) := Nat.zero_lt_one
  rw [newConnectionCallback_eq h hpos hcapacity, leaveToOwnerThread_eq hqueue]
  exact ⟨rfl, rfl, rfl, rfl⟩

theorem Dealt.newConnection (h : Dealt setup s) (hpos : 0 < setup.threadPoolCapacity)
    (hcapacity : setup.threadPoolCapacity < 2 ^ 31) :
    Dealt setup (setup.newConnectionCallback s) := by
  obtain ⟨_, hnext, hid, hconnections⟩ := newConnectionCallback_spec h hpos hcapacity
  constructor
  · rw [hnext, hid, h.next, BitVec.ofNat_add]
    rfl
  · intro id c hc
    rw [hconnections] at hc
    by_cases heq : id = s.tcpConnectionIdCounter
    · subst heq
      rw [Function.update_self, Option.some.injEq] at hc
      rw [← hc]
    · rw [Function.update_of_ne heq] at hc
      exact h.loops id c hc

theorem Dealt.step (h : Dealt setup s) (hpos : 0 < setup.threadPoolCapacity)
    (hcapacity : setup.threadPoolCapacity < 2 ^ 31) (hstep : Step setup s s') :
    Dealt setup s' := by
  cases Keeps.of_step hstep with
  | inl hkeeps => exact h.keep hkeeps
  | inr hnew =>
    rw [hnew.2]
    exact h.newConnection hpos hcapacity

/-- Any number of connections can come before the server is stopped. -/
theorem exists_dealt (hpos : 0 < setup.threadPoolCapacity)
    (hcapacity : setup.threadPoolCapacity < 2 ^ 31) (n : Nat) :
    ∃ s, Reaches (Step setup) .initial s ∧ Dealt setup s ∧ s.phase = .running ∧
      s.tcpConnectionIdCounter = n ∧ ∀ id < n, ∃ c, s.connections id = some c := by
  induction n with
  | zero => exact ⟨.initial, .refl, dealt_initial, rfl, rfl, fun _ hid => absurd hid (by omega)⟩
  | succ n ih =>
    obtain ⟨s, hr, hdealt, hrunning, hcounter, hsome⟩ := ih
    obtain ⟨hphase, _, hid, hconnections⟩ := newConnectionCallback_spec hdealt hpos hcapacity
    refine ⟨_, hr.tail (.newConnection hrunning), hdealt.newConnection hpos hcapacity,
      hphase.trans hrunning, by rw [hid, hcounter], fun id hlt => ?_⟩
    rw [hconnections, hcounter]
    by_cases heq : id = n
    · rw [heq, Function.update_self]
      exact ⟨_, rfl⟩
    · rw [Function.update_of_ne heq]
      exact hsome id (by omega)

/-! ### Where the counter turns negative -/

theorem toNat_signExtend (id : Nat) : ((BitVec.ofNat 32 id).signExtend 64).toNat =
    if id % 2 ^ 32 < 2 ^ 31 then id % 2 ^ 32 else 2 ^ 64 - 2 ^ 32 + id % 2 ^ 32 := by
  have hmod : (BitVec.ofNat 32 id).toNat = id % 2 ^ 32 := BitVec.toNat_ofNat id 32
  by_cases hsmall : id % 2 ^ 32 < 2 ^ 31
  · rw [if_pos hsmall, ← toNat_signExtend_of_lt hsmall]
    congr 2
    apply BitVec.eq_of_toNat_eq
    rw [hmod, BitVec.toNat_ofNat, Nat.mod_mod]
  · have hmsb : (BitVec.ofNat 32 id).msb = true := by
      rw [BitVec.msb_eq_decide, hmod]
      exact decide_eq_true (by omega)
    rw [if_neg hsmall, BitVec.toNat_signExtend, BitVec.toNat_setWidth, hmsb, if_pos rfl, hmod]
    omega

theorem workerOf_of_lt (h : id < 2 ^ 31) :
    setup.workerOf id = id % setup.threadPoolCapacity := by
  rw [Setup.workerOf, toNat_signExtend_of_lt h]

/-- A power of two does not notice that the counter turns negative. -/
theorem workerOf_of_dvd (h : setup.threadPoolCapacity ∣ 2 ^ 32) (id : Nat) :
    setup.workerOf id = id % setup.threadPoolCapacity := by
  have hrest : id % 2 ^ 32 % setup.threadPoolCapacity = id % setup.threadPoolCapacity :=
    Nat.mod_mod_of_dvd id h
  rw [Setup.workerOf, toNat_signExtend]
  split
  · exact hrest
  · have hnegative : setup.threadPoolCapacity ∣ 2 ^ 64 - 2 ^ 32 :=
      h.trans ⟨2 ^ 32 - 1, by decide⟩
    rw [Nat.add_mod, Nat.mod_eq_zero_of_dvd hnegative, Nat.zero_add, Nat.mod_mod, hrest]

/-- Between the last negative value and zero. -/
theorem dvd_of_turn (hcapacity : setup.threadPoolCapacity < 2 ^ 31)
    (hturn : setup.workerOf (2 ^ 32) =
      (setup.workerOf (2 ^ 32 - 1) + 1) % setup.threadPoolCapacity) :
    setup.threadPoolCapacity ∣ 2 ^ 32 := by
  have hzero : ((BitVec.ofNat 32 (2 ^ 32)).signExtend 64).toNat = 0 := by decide
  have hlast : ((BitVec.ofNat 32 (2 ^ 32 - 1)).signExtend 64).toNat = 2 ^ 64 - 1 := by decide
  rw [Setup.workerOf, Setup.workerOf, hzero, hlast, Nat.zero_mod, Nat.mod_add_mod] at hturn
  have hdvd : setup.threadPoolCapacity ∣ 2 ^ 64 := Nat.dvd_of_mod_eq_zero hturn.symm
  obtain ⟨k, _, hk⟩ := (Nat.dvd_prime_pow Nat.prime_two).mp hdvd
  rw [hk] at hcapacity ⊢
  have hlt : k < 31 := (Nat.pow_lt_pow_iff_right (by decide)).mp hcapacity
  exact Nat.pow_dvd_pow 2 (by omega)

/-- In every run, connection `id` has the worker that the counter, an `int`, says for it, which is
`id` modulo the number of workers for the first `2 ^ 31` connections. Beyond them, the workers go
on to take turns if and only if their number is a power of two. -/
theorem workers_in_turn_iff (hpos : 0 < setup.threadPoolCapacity)
    (hcapacity : setup.threadPoolCapacity < 2 ^ 31) :
    (∀ s, Reaches (Step setup) .initial s → ∀ id c, s.connections id = some c →
      c.loop = .worker (setup.workerOf id) ∧
      (id < 2 ^ 31 → c.loop = .worker (id % setup.threadPoolCapacity))) ∧
    ((∀ s, Reaches (Step setup) .initial s → ∀ id c c' i, s.connections id = some c →
        s.connections (id + 1) = some c' → c.loop = .worker i →
        c'.loop = .worker ((i + 1) % setup.threadPoolCapacity)) ↔
      setup.threadPoolCapacity ∣ 2 ^ 32) := by
  have hdealt : ∀ s, Reaches (Step setup) .initial s → Dealt setup s := fun s hr =>
    hr.invariant dealt_initial fun _ _ h hstep => h.step hpos hcapacity hstep
  refine ⟨fun s hr id c hc => ?_, fun hturns => ?_, fun hdvd s hr id c c' i hc hc' hi => ?_⟩
  · have hloop := (hdealt s hr).loops id c hc
    refine ⟨hloop, fun hlt => ?_⟩
    rw [hloop, workerOf_of_lt hlt]
  · obtain ⟨s, hr, _, _, _, hsome⟩ := exists_dealt hpos hcapacity (2 ^ 32 + 1)
    obtain ⟨c, hc⟩ := hsome (2 ^ 32 - 1) (by decide)
    obtain ⟨c', hc'⟩ := hsome (2 ^ 32 - 1 + 1) (by decide)
    have hloop := (hdealt s hr).loops _ c hc
    have hnext := hturns s hr _ c c' _ hc hc' hloop
    rw [(hdealt s hr).loops _ c' hc', Loop.worker.injEq] at hnext
    exact dvd_of_turn hcapacity hnext
  · have hloop := (hdealt s hr).loops id c hc
    have hloop' := (hdealt s hr).loops (id + 1) c' hc'
    rw [hi, Loop.worker.injEq, workerOf_of_dvd hdvd] at hloop
    rw [hloop', workerOf_of_dvd hdvd, hloop, Nat.mod_add_mod]

/-- Eight workers take turns for ever, three do not. -/
theorem workers_in_turn_eight :
    (∀ s, Reaches (Step ⟨8, 8, 0, (· = .main)⟩) .initial s → ∀ id c c' i,
      s.connections id = some c → s.connections (id + 1) = some c' → c.loop = .worker i →
      c'.loop = .worker ((i + 1) % 8)) ∧
    ¬∀ s, Reaches (Step ⟨3, 3, 0, (· = .main)⟩) .initial s → ∀ id c c' i,
      s.connections id = some c → s.connections (id + 1) = some c' → c.loop = .worker i →
      c'.loop = .worker ((i + 1) % 3) := by
  constructor
  · exact (@workers_in_turn_iff ⟨8, 8, 0, (· = .main)⟩ (by decide) (by decide)).2.mpr (by decide)
  · intro hturns
    have hdvd := (@workers_in_turn_iff ⟨3, 3, 0, (· = .main)⟩ (by decide) (by decide)).2.mp hturns
    exact absurd hdvd (by decide)

end XubinhServer.FunctorQueues

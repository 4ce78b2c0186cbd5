import Mathlib.Algebra.Group.Nat.Defs
import Mathlib.Logic.Function.Basic
import XubinhServer.Lib.Transition

/-! Which queue of which loop a functor goes to. A connection is given to a worker, and the index
of the worker's loop becomes the index of the queue of the main loop that the close functor is
pushed to. How many queues the main loop has is decided elsewhere. -/
namespace XubinhServer.FunctorQueues

open Transition

open Function (update)

inductive Thread where
  | main
  | worker (i : Nat)
  /-- a thread that the server has not started -/
  | other (i : Nat)
  deriving DecidableEq, Repr

inductive Loop where
  | main
  | worker (i : Nat)
  deriving DecidableEq, Repr

/-- The thread of `_owner_thread_tid`. -/
def Loop.owner : Loop → Thread
  | .main => .main
  | .worker i => .worker i

inductive Functor where
  | registerEvent (id : Nat)
  | checkAndAbort (id : Nat)
  | close (id : Nat)
  | forEachConnection
  deriving DecidableEq, Repr

/-- A use of a queue index: a push and the wake-up after it, or a wake-up alone. -/
structure Use where
  loop : Loop
  index : Nat
  thread : Thread
  pushes : Bool
  deriving DecidableEq, Repr

/-- What the main loop and the server are built with, and the threads that call
`run_for_each_connection`. -/
structure Setup where
  threadPoolCapacity : Nat
  numberOfFunctorBlockingQueues : Nat
  mainLoopIndex : Nat
  sweepers : Thread → Prop

structure Connection where
  loop : Loop
  chosenLoopIndex : Nat
  registered : Bool
  closed : Bool
  deriving DecidableEq, Repr

/-- `faulted` is a process that has indexed a vector behind its end. -/
inductive Phase where
  | running
  | stopped
  | destroyed
  | faulted
  deriving DecidableEq, Repr

def Phase.Live (phase : Phase) : Prop := phase = .running ∨ phase = .stopped

structure State where
  nextLoopIndexCounter : BitVec 32
  tcpConnectionIdCounter : Nat
  connections : Nat → Option Connection
  tcpConnectSocketfds : List Nat
  functors : Loop → Nat → List Functor
  uses : List Use
  phase : Phase

namespace State

def initial : State where
  nextLoopIndexCounter := 0
  tcpConnectionIdCounter := 0
  connections _ := none
  tcpConnectSocketfds := []
  functors _ _ := []
  uses := []
  phase := .running

def setFunctors (s : State) (l : Loop) (index : Nat) (functors : List Functor) : State :=
  { s with functors := fun m i => if m = l ∧ i = index then functors else s.functors m i }

def setConnection (s : State) (id : Nat) (c : Connection) : State :=
  { s with connections := update s.connections id (some c) }

/-- The functor of `_register_event`. -/
def registerEvent (s : State) (id : Nat) : State :=
  match s.connections id with
  | none => s
  | some c => s.setConnection id { c with registered := true }

/-- The functor of `_close_callback`. -/
def runCloseFunctor (s : State) (id : Nat) : State :=
  { s with tcpConnectSocketfds := s.tcpConnectSocketfds.erase id }

end State

namespace Setup

variable (setup : Setup)

/-- How far `EventLoopThreadPool::start` counts, with an `int`. -/
def workers : Nat := (BitVec.ofNat 32 setup.threadPoolCapacity).toInt.toNat

/-- A worker's loop is built with its index alone. -/
def numberOfQueues : Loop → Nat
  | .main => max setup.numberOfFunctorBlockingQueues 1
  | .worker _ => max 1 1

def loopIndex : Loop → Nat
  | .main => setup.mainLoopIndex
  | .worker i => i

/-- `fetch_add` on an `int`, converted to `size_t` for the remainder. -/
def getNextLoop (s : State) : State × Option Loop :=
  let nextLoopIndex :=
    (s.nextLoopIndexCounter.signExtend 64).toNat % setup.threadPoolCapacity
  ({ s with nextLoopIndexCounter := s.nextLoopIndexCounter + 1 },
    if nextLoopIndex < setup.workers then some (.worker nextLoopIndex) else none)

def chosenLoop (s : State) : State × Option Loop :=
  if 0 < setup.threadPoolCapacity then setup.getNextLoop s else (s, some .main)

def leaveToOwnerThread (s : State) (t : Thread) (l : Loop) (functor : Functor) (index : Nat) :
    State :=
  let used : State := { s with uses := s.uses ++ [⟨l, index, t, true⟩] }
  if index < setup.numberOfQueues l then
    used.setFunctors l index (s.functors l index ++ [functor])
  else { used with phase := .faulted }

/-- `_new_connection_callback`, down to `_register_event`. -/
def newConnectionCallback (s : State) : State :=
  match setup.chosenLoop s with
  | (s, none) => { s with phase := .faulted }
  | (s, some loop) =>
    let id := s.tcpConnectionIdCounter
    let started : State := { s with
      tcpConnectionIdCounter := id + 1
      connections := update s.connections id (some ⟨loop, setup.loopIndex loop, false, false⟩)
      tcpConnectSocketfds := s.tcpConnectSocketfds ++ [id] }
    if loop.owner = .main then started.registerEvent id
    else setup.leaveToOwnerThread started .main loop (.registerEvent id) 0

def closeCallback (s : State) (t : Thread) (id functorBlockingQueueIndex : Nat) : State :=
  if t = .main then s.runCloseFunctor id
  else setup.leaveToOwnerThread s t .main (.close id) functorBlockingQueueIndex

/-- `reset_connection`, which happens to a connection once. -/
def resetConnection (s : State) (t : Thread) (id : Nat) : State :=
  match s.connections id with
  | none => s
  | some c =>
    if c.closed then s
    else setup.closeCallback (s.setConnection id { c with closed := true }) t id c.chosenLoopIndex

/-- `check_and_abort_from_event_loop`; `aborts` is what the predicate says. -/
def checkAndAbort (aborts : Nat → Bool) (s : State) (id : Nat) : State :=
  match s.connections id with
  | none => s
  | some c =>
    if c.loop.owner = .main then if aborts id then setup.resetConnection s .main id else s
    else setup.leaveToOwnerThread s .main c.loop (.checkAndAbort id) 0

/-- The functor of `run_for_each_connection`, with a callback that checks some connections. -/
def sweep (checks aborts : Nat → Bool) (s : State) : State :=
  (s.tcpConnectSocketfds.filter checks).foldl (setup.checkAndAbort aborts) s

def runForEachConnection (checks aborts : Nat → Bool) (s : State) (t : Thread) : State :=
  if t = .main then setup.sweep checks aborts s
  else setup.leaveToOwnerThread s t .main .forEachConnection 0

def runFunctor (checks aborts : Nat → Bool) (s : State) (t : Thread) : Functor → State
  | .registerEvent id => s.registerEvent id
  | .checkAndAbort id => if aborts id then setup.resetConnection s t id else s
  | .close id => s.runCloseFunctor id
  | .forEachConnection => setup.sweep checks aborts s

/-- `EventLoopThreadPool::stop`. -/
def stop (s : State) : State :=
  { s with
    uses := s.uses ++ (List.range setup.workers).map fun i => ⟨.worker i, 0, .main, false⟩
    phase := .stopped }

/-- `~TcpServer`, on the connections that are left. -/
def destroy (s : State) : State :=
  { s.tcpConnectSocketfds.foldl (setup.resetConnection · .main ·) s with phase := .destroyed }

/-- The thread exists and calls `run_for_each_connection`. -/
def Sweeps (t : Thread) : Prop :=
  setup.sweepers t ∧ ∀ i, t = .worker i → i < setup.workers

end Setup

inductive Step (setup : Setup) : State → State → Prop
  | newConnection {s} (hs : s.phase = .running) : Step setup s (setup.newConnectionCallback s)
  /-- an event of the connection `id` ends it -/
  | dispatch {s} (id : Nat) (c : Connection) (hs : s.phase.Live)
      (hid : s.connections id = some c) (hregistered : c.registered = true) :
      Step setup s (setup.resetConnection s c.loop.owner id)
  | invoke {s} (l : Loop) (index : Nat) (functor : Functor) (rest : List Functor)
      (checks aborts : Nat → Bool) (hs : s.phase.Live)
      (hfunctor : s.functors l index = functor :: rest) :
      Step setup s
        (setup.runFunctor checks aborts (s.setFunctors l index rest) l.owner functor)
  | runForEachConnection {s} (t : Thread) (checks aborts : Nat → Bool) (hs : s.phase.Live)
      (ht : setup.Sweeps t) : Step setup s (setup.runForEachConnection checks aborts s t)
  | stop {s} (hs : s.phase = .running) : Step setup s (setup.stop s)
  | destroy {s} (hs : s.phase = .stopped) : Step setup s (setup.destroy s)

/-- Every index is the index of a queue, and a queue has one producer. -/
structure Disciplined (setup : Setup) (s : State) : Prop where
  inRange : ∀ use ∈ s.uses, use.index < setup.numberOfQueues use.loop
  oneProducer : ∀ use ∈ s.uses, ∀ other ∈ s.uses, use.pushes = true → other.pushes = true →
    use.loop = other.loop → use.index = other.index → use.thread = other.thread

/-- The thread pushes to the first queue of the main loop: the first worker its close functors,
a thread that is not the main one its sweeps. -/
def Setup.PushesToFirst (setup : Setup) (t : Thread) : Prop :=
  t = .worker 0 ∧ 0 < setup.workers ∨ t ≠ .main ∧ setup.Sweeps t

variable {setup : Setup} {s s' : State} {t : Thread} {l : Loop} {index id : Nat}
  {functor : Functor} {checks aborts : Nat → Bool}

/-- The uses there are in a run. -/
inductive Usual (setup : Setup) : Use → Prop
  | toWorker (i : Nat) (pushes : Bool) : Usual setup ⟨.worker i, 0, .main, pushes⟩
  | close (i : Nat) (hi : i < setup.workers) : Usual setup ⟨.main, i, .worker i, true⟩
  | sweep (t : Thread) (hmain : t ≠ .main) (ht : setup.Sweeps t) : Usual setup ⟨.main, 0, t, true⟩

/-- The connection of a worker has the index of the worker's loop, and a check is in the queue of
the worker that has the connection. -/
structure Assigned (setup : Setup) (s : State) : Prop where
  worker : ∀ id c i, s.connections id = some c → c.loop = .worker i →
    i < setup.workers ∧ c.chosenLoopIndex = i
  fresh : ∀ id c, s.connections id = some c → id < s.tcpConnectionIdCounter
  queued : ∀ l index id, .checkAndAbort id ∈ s.functors l index →
    ∃ c, s.connections id = some c ∧ c.loop = l
  uses : ∀ use ∈ s.uses, Usual setup use

theorem assigned_initial : Assigned setup .initial where
  worker _ _ _ h := nomatch h
  fresh _ _ h := nomatch h
  queued _ _ _ h := nomatch h
  uses _ h := nomatch h

theorem Assigned.setFunctors (h : Assigned setup s) {functors : List Functor}
    (hf : ∀ id, .checkAndAbort id ∈ functors → ∃ c, s.connections id = some c ∧ c.loop = l) :
    Assigned setup (s.setFunctors l index functors) where
  worker := h.worker
  fresh := h.fresh
  queued m i id hid := by
    rw [State.setFunctors] at hid
    dsimp only at hid
    split at hid
    · rename_i hm
      rw [hm.1]
      exact hf id hid
    · exact h.queued m i id hid
  uses := h.uses

/-- A connection stays with its loop. -/
theorem Assigned.setConnection (h : Assigned setup s) {c d : Connection}
    (hc : s.connections id = some c) (hloop : d.loop = c.loop)
    (hindex : d.chosenLoopIndex = c.chosenLoopIndex) :
    Assigned setup (s.setConnection id d) where
  worker other e i he hi := by
    rw [State.setConnection] at he
    dsimp only at he
    by_cases ho : other = id
    · rw [ho, Function.update_self, Option.some.injEq] at he
      subst he
      rw [hindex]
      exact h.worker id c i hc (hloop ▸ hi)
    · rw [Function.update_of_ne ho] at he
      exact h.worker other e i he hi
  fresh other e he := by
    rw [State.setConnection] at he
    dsimp only at he
    by_cases ho : other = id
    · rw [ho]
      exact h.fresh id c hc
    · rw [Function.update_of_ne ho] at he
      exact h.fresh other e he
  queued m i other hother := by
    obtain ⟨e, he, hm⟩ := h.queued m i other hother
    rw [State.setConnection]
    dsimp only
    by_cases ho : other = id
    · rw [ho, hc, Option.some.injEq] at he
      exact ⟨d, by rw [ho, Function.update_self], by rw [hloop, he, hm]⟩
    · exact ⟨e, by rw [Function.update_of_ne ho, he], hm⟩
  uses := h.uses

theorem Assigned.leaveToOwnerThread (h : Assigned setup s) (huse : Usual setup ⟨l, index, t, true⟩)
    (hf : ∀ id, functor = .checkAndAbort id → ∃ c, s.connections id = some c ∧ c.loop = l) :
    Assigned setup (setup.leaveToOwnerThread s t l functor index) := by
  have hused : Assigned setup { s with uses := s.uses ++ [⟨l, index, t, true⟩] } :=
    { worker := h.worker
      fresh := h.fresh
      queued := h.queued
      uses := by
        intro use hmem
        rw [List.mem_append, List.mem_singleton] at hmem
        cases hmem with
        | inl hmem => exact h.uses use hmem
        | inr hmem => exact hmem ▸ huse }
  rw [Setup.leaveToOwnerThread]
  dsimp only
  split
  · refine hused.setFunctors fun id hid => ?_
    rw [List.mem_append, List.mem_singleton] at hid
    cases hid with
    | inl hid => exact h.queued l index id hid
    | inr hid => exact hf id hid.symm
  · exact ⟨hused.worker, hused.fresh, hused.queued, hused.uses⟩

theorem Assigned.registerEvent (h : Assigned setup s) : Assigned setup (s.registerEvent id) := by
  rw [State.registerEvent]
  cases hid : s.connections id with
  | none => exact h
  | some c => exact h.setConnection hid rfl rfl

theorem Assigned.runCloseFunctor (h : Assigned setup s) :
    Assigned setup (s.runCloseFunctor id) :=
  ⟨h.worker, h.fresh, h.queued, h.uses⟩

/-- Only its own worker or the main thread resets a connection. -/
theorem Assigned.resetConnection (h : Assigned setup s)
    (ht : t = .main ∨ ∃ c, s.connections id = some c ∧ c.loop.owner = t) :
    Assigned setup (setup.resetConnection s t id) := by
  rw [Setup.resetConnection]
  cases hid : s.connections id with
  | none => exact h
  | some c =>
    dsimp only
    split
    · exact h
    · have hclosed : Assigned setup (s.setConnection id { c with closed := true }) :=
        h.setConnection hid rfl rfl
      rw [Setup.closeCallback]
      split
      · exact hclosed.runCloseFunctor
      · rename_i hmain
        obtain ⟨d, hd, howner⟩ := ht.resolve_left hmain
        rw [hid, Option.some.injEq] at hd
        subst hd
        refine hclosed.leaveToOwnerThread ?_ fun _ hf => nomatch hf
        cases hloop : c.loop with
        | main => exact absurd (by rw [← howner, hloop, Loop.owner]) hmain
        | worker i =>
          obtain ⟨hi, hindex⟩ := h.worker id c i hid hloop
          rw [← howner, hloop, hindex]
          exact .close i hi

theorem Assigned.checkAndAbort (h : Assigned setup s) :
    Assigned setup (setup.checkAndAbort aborts s id) := by
  rw [Setup.checkAndAbort]
  cases hid : s.connections id with
  | none => exact h
  | some c =>
    dsimp only
    cases hloop : c.loop with
    | main =>
      rw [if_pos (by rw [Loop.owner])]
      split
      · exact h.resetConnection (.inl rfl)
      · exact h
    | worker i =>
      rw [if_neg (by rw [Loop.owner]; exact Thread.noConfusion)]
      refine h.leaveToOwnerThread (.toWorker i true) fun other hother => ?_
      rw [Functor.checkAndAbort.injEq] at hother
      exact ⟨c, hother ▸ hid, hloop⟩

theorem Assigned.foldl {step : State → Nat → State} (ids : List Nat)
    (hstep : ∀ s id, Assigned setup s → Assigned setup (step s id)) (h : Assigned setup s) :
    Assigned setup (ids.foldl step s) := by
  induction ids generalizing s with
  | nil => exact h
  | cons id ids ih => exact ih (hstep s id h)

theorem Assigned.sweep (h : Assigned setup s) : Assigned setup (setup.sweep checks aborts s) :=
  h.foldl _ fun _ _ h => h.checkAndAbort

theorem Assigned.chosenLoop (h : Assigned setup s) : Assigned setup (setup.chosenLoop s).1 := by
  rw [Setup.chosenLoop]
  split
  · exact ⟨h.worker, h.fresh, h.queued, h.uses⟩
  · exact h

theorem lt_workers_of_chosenLoop {i : Nat} (h : (setup.chosenLoop s).2 = some (.worker i)) :
    i < setup.workers := by
  rw [Setup.chosenLoop] at h
  split at h
  · rw [Setup.getNextLoop] at h
    dsimp only at h
    split at h
    · rename_i hi
      rw [Option.some.injEq, Loop.worker.injEq] at h
      exact h ▸ hi
    · exact nomatch h
  · exact nomatch h

/-- A connection starts with the index of its loop, under an id that no functor has. -/
theorem Assigned.add (h : Assigned setup s) (hl : ∀ i, l = .worker i → i < setup.workers) :
    Assigned setup { s with
      tcpConnectionIdCounter := s.tcpConnectionIdCounter + 1
      connections := update s.connections s.tcpConnectionIdCounter
        (some ⟨l, setup.loopIndex l, false, false⟩)
      tcpConnectSocketfds := s.tcpConnectSocketfds ++ [s.tcpConnectionIdCounter] } where
  worker id c i hc hi := by
    dsimp only at hc
    by_cases hid : id = s.tcpConnectionIdCounter
    · rw [hid, Function.update_self, Option.some.injEq] at hc
      subst hc
      have hloop : l = .worker i := hi
      exact ⟨hl i hloop, by rw [hloop, Setup.loopIndex]⟩
    · rw [Function.update_of_ne hid] at hc
      exact h.worker id c i hc hi
  fresh id c hc := by
    dsimp only at hc ⊢
    by_cases hid : id = s.tcpConnectionIdCounter
    · omega
    · rw [Function.update_of_ne hid] at hc
      exact Nat.lt_succ_of_lt (h.fresh id c hc)
  queued m index id hid := by
    obtain ⟨c, hc, hm⟩ := h.queued m index id hid
    have hne : id ≠ s.tcpConnectionIdCounter := Nat.ne_of_lt (h.fresh id c hc)
    exact ⟨c, by dsimp only; rw [Function.update_of_ne hne, hc], hm⟩
  uses := h.uses

theorem Assigned.newConnectionCallback (h : Assigned setup s) :
    Assigned setup (setup.newConnectionCallback s) := by
  have hchosen := h.chosenLoop
  have hworkers := @lt_workers_of_chosenLoop setup s
  rw [Setup.newConnectionCallback]
  cases hloop : setup.chosenLoop s with
  | mk s' loop =>
    rw [hloop] at hchosen hworkers
    cases loop with
    | none => exact ⟨hchosen.worker, hchosen.fresh, hchosen.queued, hchosen.uses⟩
    | some l =>
      dsimp only
      have hadd := @Assigned.add setup s' l hchosen fun i hi => hworkers (congrArg some hi)
      cases l with
      | main =>
        rw [if_pos (by rw [Loop.owner])]
        exact hadd.registerEvent
      | worker i =>
        rw [if_neg (by rw [Loop.owner]; exact Thread.noConfusion)]
        exact hadd.leaveToOwnerThread (.toWorker i true) fun _ hf => nomatch hf

/-- What one step preserves. -/
theorem Assigned.step (h : Assigned setup s) (hstep : Step setup s s') : Assigned setup s' := by
  cases hstep with
  | newConnection hs => exact h.newConnectionCallback
  | dispatch id c hs hid hregistered => exact h.resetConnection (.inr ⟨c, hid, rfl⟩)
  | invoke l index functor rest checks aborts hs hfunctor =>
    have hrest : Assigned setup (s.setFunctors l index rest) :=
      h.setFunctors fun id hid =>
        h.queued l index id (by rw [hfunctor]; exact List.mem_cons_of_mem _ hid)
    cases functor with
    | registerEvent id => exact hrest.registerEvent
    | checkAndAbort id =>
      obtain ⟨c, hc, hloop⟩ :=
        h.queued l index id (by rw [hfunctor]; exact List.mem_cons_self)
      rw [Setup.runFunctor]
      split
      · exact hrest.resetConnection (.inr ⟨c, hc, by rw [hloop]⟩)
      · exact hrest
    | close id => exact hrest.runCloseFunctor
    | forEachConnection => exact hrest.sweep
  | runForEachConnection t checks aborts hs ht =>
    rw [Setup.runForEachConnection]
    split
    · exact h.sweep
    · rename_i hmain
      exact h.leaveToOwnerThread (.sweep t hmain ht) fun _ hf => nomatch hf
  | stop hs =>
    refine ⟨h.worker, h.fresh, h.queued, fun use hmem => ?_⟩
    rw [Setup.stop, List.mem_append, List.mem_map] at hmem
    cases hmem with
    | inl hmem => exact h.uses use hmem
    | inr hmem =>
      obtain ⟨i, -, hi⟩ := hmem
      exact hi ▸ .toWorker i false
  | destroy hs =>
    have hreset : Assigned setup
        (s.tcpConnectSocketfds.foldl (setup.resetConnection · .main ·) s) :=
      h.foldl _ fun _ _ h => h.resetConnection (.inl rfl)
    exact ⟨hreset.worker, hreset.fresh, hreset.queued, hreset.uses⟩

theorem Assigned.of_reaches (h : Reaches (Step setup) .initial s) : Assigned setup s :=
  h.invariant assigned_initial fun _ _ ha hstep => ha.step hstep

theorem Usual.inRange {use : Use} (h : Usual setup use)
    (hworkers : setup.workers ≤ setup.numberOfQueues .main) :
    use.index < setup.numberOfQueues use.loop := by
  cases h with
  | toWorker i pushes => exact Nat.zero_lt_one
  | close i hi => exact Nat.lt_of_lt_of_le hi hworkers
  | sweep t hmain ht => exact Nat.lt_of_lt_of_le Nat.zero_lt_one (Nat.le_max_right _ _)

/-- Only the first queue of the main loop can have two producers. -/
theorem Usual.thread_eq {use other : Use} (h : Usual setup use) (hother : Usual setup other)
    (hfirst : ∀ t u, setup.PushesToFirst t → setup.PushesToFirst u → t = u)
    (hloop : use.loop = other.loop) (hindex : use.index = other.index) :
    use.thread = other.thread := by
  cases h with
  | toWorker i pushes =>
    cases hother with
    | toWorker j pushes => rfl
    | close j hj => exact nomatch hloop
    | sweep u hmain hu => exact nomatch hloop
  | close i hi =>
    cases hother with
    | toWorker j pushes => exact nomatch hloop
    | close j hj => exact congrArg Thread.worker hindex
    | sweep u hmain hu =>
      have hzero : i = 0 := hindex
      subst hzero
      exact hfirst (.worker 0) u (.inl ⟨rfl, hi⟩) (.inr ⟨hmain, hu⟩)
  | sweep t hmain ht =>
    cases hother with
    | toWorker j pushes => exact nomatch hloop
    | close j hj =>
      have hzero : 0 = j := hindex
      subst hzero
      exact hfirst t (.worker 0) (.inr ⟨hmain, ht⟩) (.inl ⟨rfl, hj⟩)
    | sweep u hmain' hu => exact hfirst t u (.inr ⟨hmain, ht⟩) (.inr ⟨hmain', hu⟩)

theorem lt_of_lt_workers {n : Nat} (h : n < setup.workers) :
    n < setup.threadPoolCapacity ∧ n < 2 ^ 31 := by
  rw [Setup.workers, BitVec.toInt_eq_toNat_cond, BitVec.toNat_ofNat] at h
  have hmod := Nat.mod_le setup.threadPoolCapacity (2 ^ 32)
  split at h <;> omega

/-- A capacity that an `int` can hold is the number of workers. -/
theorem workers_of_lt (h : setup.threadPoolCapacity < 2 ^ 31) :
    setup.workers = setup.threadPoolCapacity := by
  rw [Setup.workers, BitVec.toInt_eq_toNat_cond, BitVec.toNat_ofNat,
    Nat.mod_eq_of_lt (by omega), if_pos (by omega), Int.toNat_natCast]

theorem toNat_signExtend_of_lt {n : Nat} (h : n < 2 ^ 31) :
    ((BitVec.ofNat 32 n).signExtend 64).toNat = n := by
  have hn : (BitVec.ofNat 32 n).toNat = n := by
    rw [BitVec.toNat_ofNat]
    exact Nat.mod_eq_of_lt (by omega)
  have hmsb : (BitVec.ofNat 32 n).msb = false := by
    rw [BitVec.msb_eq_decide, hn]
    exact decide_eq_false (by omega)
  rw [BitVec.signExtend_eq_setWidth_of_msb_false hmsb, BitVec.toNat_setWidth, hn]
  exact Nat.mod_eq_of_lt (by omega)

/-- The first connections go to the workers in their order. -/
theorem chosenLoop_eq {n : Nat} (hcounter : s.nextLoopIndexCounter = BitVec.ofNat 32 n)
    (hn : n < setup.workers) :
    setup.chosenLoop s =
      ({ s with nextLoopIndexCounter := BitVec.ofNat 32 (n + 1) }, some (.worker n)) := by
  obtain ⟨hcapacity, hint⟩ := lt_of_lt_workers hn
  have hindex : (s.nextLoopIndexCounter.signExtend 64).toNat % setup.threadPoolCapacity = n := by
    rw [hcounter, toNat_signExtend_of_lt hint]
    exact Nat.mod_eq_of_lt hcapacity
  have hnext : s.nextLoopIndexCounter + 1 = BitVec.ofNat 32 (n + 1) := by
    rw [hcounter, BitVec.ofNat_add]
    rfl
  rw [Setup.chosenLoop, if_pos (Nat.zero_lt_of_lt hcapacity), Setup.getNextLoop, hindex,
    if_pos hn, hnext]

theorem leaveToOwnerThread_eq (h : index < setup.numberOfQueues l) :
    setup.leaveToOwnerThread s t l functor index =
      State.setFunctors { s with uses := s.uses ++ [⟨l, index, t, true⟩] } l index
        (s.functors l index ++ [functor]) := by
  rw [Setup.leaveToOwnerThread]
  exact if_pos h

theorem mem_uses_leaveToOwnerThread :
    ⟨l, index, t, true⟩ ∈ (setup.leaveToOwnerThread s t l functor index).uses := by
  rw [Setup.leaveToOwnerThread]
  dsimp only
  split
  · exact List.mem_append_right _ (List.mem_singleton.2 rfl)
  · exact List.mem_append_right _ (List.mem_singleton.2 rfl)

/-- The first connections have been accepted, and the workers have not done anything yet. -/
structure Accepted (n : Nat) (s : State) : Prop where
  phase : s.phase = .running
  counter : s.nextLoopIndexCounter = BitVec.ofNat 32 n
  id : s.tcpConnectionIdCounter = n
  connection : ∀ i < n, s.connections i = some ⟨.worker i, i, false, false⟩
  functors : ∀ i, s.functors (.worker i) 0 = if i < n then [.registerEvent i] else []

theorem Accepted.next {n : Nat} (h : Accepted n s) (hn : n < setup.workers) :
    Accepted (n + 1) (setup.newConnectionCallback s) := by
  have hqueue : 0 < setup.numberOfQueues (.worker n) := Nat.zero_lt_one
  rw [Setup.newConnectionCallback, chosenLoop_eq h.counter hn]
  dsimp only
  rw [if_neg (by rw [Loop.owner]; exact Thread.noConfusion), leaveToOwnerThread_eq hqueue]
  refine ⟨h.phase, rfl, congrArg (· + 1) h.id, fun i hi => ?_, fun i => ?_⟩
  · rw [State.setFunctors]
    dsimp only
    rw [h.id, Setup.loopIndex]
    by_cases hin : i = n
    · rw [hin, Function.update_self]
    · rw [Function.update_of_ne hin]
      exact h.connection i (by omega)
  · rw [State.setFunctors]
    dsimp only
    by_cases hin : i = n
    · subst hin
      rw [if_pos ⟨rfl, rfl⟩, h.functors i, if_neg (Nat.lt_irrefl i), if_pos (Nat.lt_succ_self i),
        h.id, List.nil_append]
    · rw [if_neg (fun hi => hin (Loop.worker.inj hi.1)), h.functors i]
      split
      · rw [if_pos (by omega)]
      · rw [if_neg (by omega)]

theorem exists_accepted {n : Nat} (hn : n ≤ setup.workers) :
    ∃ s, Reaches (Step setup) .initial s ∧ Accepted n s := by
  induction n with
  | zero => exact ⟨.initial, .refl, rfl, rfl, rfl, fun _ hi => absurd hi (by omega), fun _ => rfl⟩
  | succ n ih =>
    obtain ⟨s, hs, haccepted⟩ := ih (by omega)
    exact ⟨_, hs.tail (.newConnection haccepted.phase), haccepted.next (by omega)⟩

theorem resetConnection_worker {i : Nat} {c : Connection} (hc : s.connections id = some c)
    (hclosed : c.closed = false) :
    setup.resetConnection s (.worker i) id =
      setup.leaveToOwnerThread (s.setConnection id { c with closed := true }) (.worker i) .main
        (.close id) c.chosenLoopIndex := by
  rw [Setup.resetConnection, hc]
  dsimp only
  rw [if_neg (by rw [hclosed]; exact Bool.false_ne_true), Setup.closeCallback,
    if_neg Thread.noConfusion]

/-- Worker `i` pushes a close functor to the queue of the main loop with its own index. -/
theorem exists_closed {i : Nat} (hi : i < setup.workers) :
    ∃ s, Reaches (Step setup) .initial s ∧ ⟨.main, i, .worker i, true⟩ ∈ s.uses ∧
      (i < setup.numberOfQueues .main → s.phase = .running) := by
  obtain ⟨s, hs, h⟩ := @exists_accepted setup (i + 1) hi
  have hfunctor : s.functors (.worker i) 0 = .registerEvent i :: [] := by
    rw [h.functors i, if_pos (Nat.lt_succ_self i)]
  have hconnection := h.connection i (Nat.lt_succ_self i)
  have hinvoke := @Step.invoke setup s (.worker i) 0 _ [] (fun _ => false) (fun _ => false)
    (.inl h.phase) hfunctor
  have hregister : setup.runFunctor (fun _ => false) (fun _ => false)
      (s.setFunctors (.worker i) 0 []) (.worker i) (.registerEvent i) =
        (s.setFunctors (.worker i) 0 []).setConnection i ⟨.worker i, i, true, false⟩ := by
    rw [Setup.runFunctor, State.registerEvent, State.setFunctors, hconnection]
  rw [Loop.owner, hregister] at hinvoke
  have hregistered : ((s.setFunctors (.worker i) 0 []).setConnection i
      ⟨.worker i, i, true, false⟩).connections i = some ⟨.worker i, i, true, false⟩ :=
    Function.update_self i _ _
  have hdispatch := @Step.dispatch setup ((s.setFunctors (.worker i) 0 []).setConnection i
    ⟨.worker i, i, true, false⟩) i _ (.inl h.phase) hregistered rfl
  rw [Loop.owner, resetConnection_worker hregistered rfl] at hdispatch
  refine ⟨_, (hs.tail hinvoke).tail hdispatch, mem_uses_leaveToOwnerThread, fun hqueue => ?_⟩
  rw [leaveToOwnerThread_eq hqueue]
  exact h.phase

/-- A sweep that is not asked for by the main thread adds a push to what there is. -/
theorem exists_swept (hs : s.phase = .running) (hmain : t ≠ .main) (ht : setup.Sweeps t) :
    ∃ s', Step setup s s' ∧ s'.phase = .running ∧ ⟨.main, 0, t, true⟩ ∈ s'.uses ∧
      ∀ use ∈ s.uses, use ∈ s'.uses := by
  have hsweep := Step.runForEachConnection t (fun _ => false) (fun _ => false) (.inl hs) ht
  have hqueue : 0 < setup.numberOfQueues .main :=
    Nat.lt_of_lt_of_le Nat.zero_lt_one (Nat.le_max_right _ _)
  rw [Setup.runForEachConnection, if_neg hmain] at hsweep
  refine ⟨_, hsweep, ?_, mem_uses_leaveToOwnerThread, fun use hmem => ?_⟩
  · rw [leaveToOwnerThread_eq hqueue]
    exact hs
  · rw [leaveToOwnerThread_eq hqueue]
    exact List.mem_append_left _ hmem

theorem exists_pushed (ht : setup.PushesToFirst t) :
    ∃ s, Reaches (Step setup) .initial s ∧ s.phase = .running ∧ ⟨.main, 0, t, true⟩ ∈ s.uses := by
  cases ht with
  | inl ht =>
    obtain ⟨s, hs, hmem, hphase⟩ := exists_closed ht.2
    exact ⟨s, hs, hphase (Nat.lt_of_lt_of_le Nat.zero_lt_one (Nat.le_max_right _ _)), ht.1 ▸ hmem⟩
  | inr ht =>
    obtain ⟨s, hs, hphase, hmem, -⟩ := @exists_swept setup .initial t rfl ht.1 ht.2
    exact ⟨s, .tail .refl hs, hphase, hmem⟩

theorem exists_pushed_both {u : Thread} (ht : setup.PushesToFirst t) (hu : setup.PushesToFirst u) :
    ∃ s, Reaches (Step setup) .initial s ∧ ⟨.main, 0, t, true⟩ ∈ s.uses ∧
      ⟨.main, 0, u, true⟩ ∈ s.uses := by
  cases ht with
  | inr ht =>
    obtain ⟨s, hs, hphase, hmem⟩ := exists_pushed hu
    obtain ⟨s', hstep, -, hmem', huses⟩ := exists_swept hphase ht.1 ht.2
    exact ⟨s', hs.tail hstep, hmem', huses _ hmem⟩
  | inl ht =>
    obtain ⟨s, hs, hphase, hmem⟩ := @exists_pushed setup t (.inl ht)
    cases hu with
    | inl hu => exact ⟨s, hs, hmem, by rw [hu.1, ← ht.1]; exact hmem⟩
    | inr hu =>
      obtain ⟨s', hstep, -, hmem', huses⟩ := exists_swept hphase hu.1 hu.2
      exact ⟨s', hs.tail hstep, huses _ hmem, hmem'⟩

/-- Where the queues of the main loop are fewer than the workers, one worker has an index that is
behind them. -/
theorem exists_outOfRange (h : setup.numberOfQueues .main < setup.workers) :
    ∃ s, Reaches (Step setup) .initial s ∧ ¬Disciplined setup s := by
  obtain ⟨s, hs, hmem, -⟩ := exists_closed h
  exact ⟨s, hs, fun hd => Nat.lt_irrefl _ (hd.inRange _ hmem)⟩

/-- Indices stay in range and queues have one producer in all runs exactly if the workers are not
more than the queues of the main loop, and if one thread at most pushes to the first of them. -/
theorem disciplined_iff (setup : Setup) :
    (∀ s, Reaches (Step setup) .initial s → Disciplined setup s) ↔
      setup.workers ≤ max setup.numberOfFunctorBlockingQueues 1 ∧
        ∀ t u, setup.PushesToFirst t → setup.PushesToFirst u → t = u := by
  constructor
  · intro h
    constructor
    · refine Nat.le_of_not_lt fun hlt => ?_
      obtain ⟨s, hs, hnot⟩ := @exists_outOfRange setup hlt
      exact hnot (h s hs)
    · intro t u ht hu
      obtain ⟨s, hs, hmem, hmem'⟩ := exists_pushed_both ht hu
      exact (h s hs).oneProducer _ hmem _ hmem' rfl rfl rfl rfl
  · intro h s hs
    have hassigned := Assigned.of_reaches hs
    exact
      { inRange := fun use hmem => (hassigned.uses use hmem).inRange h.1
        oneProducer := fun use hmem other hother _ _ hloop hindex =>
          (hassigned.uses use hmem).thread_eq (hassigned.uses other hother) h.2 hloop hindex }

/-- Two workers and one queue, with sweeps by the main thread: the second worker indexes the queue
behind the only one. -/
theorem not_disciplined_twoWorkers :
    ¬∀ s, Reaches (Step ⟨2, 1, 0, (· = .main)⟩) .initial s →
      Disciplined ⟨2, 1, 0, (· = .main)⟩ s := by
  intro h
  obtain ⟨s, hs, hnot⟩ := @exists_outOfRange ⟨2, 1, 0, (· = .main)⟩ (by decide)
  exact hnot (h s hs)

end XubinhServer.FunctorQueues

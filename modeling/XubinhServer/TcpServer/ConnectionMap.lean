import Mathlib.Logic.Function.Basic
import XubinhServer.TcpServer

/-! The map of the server and the connections behind it: who shares a connection, when it is
destroyed, and what closing it does to the map. `EventLoop::run` runs a functor in place in the
thread of the loop and posts it from any other thread. -/
namespace XubinhServer.TcpServer

open Halting

open Function (update update_self)

/-- What ends the program, or is undefined. -/
inductive MapFault where
  | erasedEntry (id : Nat)
  | destroyedObject (id : Nat)
  | logFatal (message : String)
  deriving DecidableEq, Repr

structure Connection where
  isDetached : Bool
  isReset : Bool
  isAborted : Bool
  /-- the `shared_ptr`s beside the one in the map -/
  references : Nat
  deriving DecidableEq, Repr

structure ConnectionMap where
  /-- the keys of `_tcp_connect_socketfds`, in order -/
  entries : List Nat
  /-- the connections that have not been destroyed -/
  connections : Nat → Option Connection
  /-- how often the descriptor of a connection has been closed -/
  closes : Nat → Nat
  /-- the connections for which `_check_and_abort_impl` waits in the loop of a worker -/
  checks : List Nat
  /-- the close functors that wait in the main loop -/
  closeFunctors : List Nat
  /-- the answers to `::setsockopt` and `::close`; once they are used up, both succeed -/
  resets : List ResetResult

abbrev MapComp := EStateM MapFault ConnectionMap

namespace ConnectionMap

/-- Follow a pointer to the connection `id`. -/
def reach (id : Nat) : MapComp Connection := do
  match (← get).connections id with
  | some c => pure c
  | none => throw (.destroyedObject id)

def store (id : Nat) (c : Option Connection) : MapComp Unit :=
  modify fun m => { m with connections := update m.connections id c }

def nextReset : MapComp ResetResult :=
  modifyGet fun m => (m.resets.headD .success, { m with resets := m.resets.tail })

def countClose (id : Nat) : MapComp Unit :=
  modify fun m => { m with closes := update m.closes id (m.closes id + 1) }

/-- `~TcpConnectSocketfd`. -/
def destroy (id : Nat) : MapComp Unit := do
  if !(← reach id).isReset then
    if (← nextReset) ≠ .success then throw (.logFatal "failed to close fd")
    countClose id
  store id none

/-- `shared_from_this`. -/
def acquire (id : Nat) : MapComp Unit := do
  let c ← reach id
  store id (some { c with references := c.references + 1 })

/-- A `shared_ptr` goes that is not the one in the map. -/
def release (id : Nat) : MapComp Unit := do
  let c ← reach id
  store id (some { c with references := c.references - 1 })
  if c.references ≤ 1 ∧ id ∉ (← get).entries then destroy id

def eraseEntry (id : Nat) : MapComp Unit := do
  modify fun m => { m with entries := m.entries.erase id }
  if (← reach id).references = 0 then destroy id

/-- The functor of `_close_callback`. -/
def runCloseFunctor (id : Nat) : MapComp Unit := do
  if id ∈ (← get).entries then eraseEntry id
  else throw (.logFatal "never reaches here")

def closeCallback (inOwnerThread : Bool) (id : Nat) : MapComp Unit :=
  if inOwnerThread then runCloseFunctor id
  else modify fun m => { m with closeFunctors := m.closeFunctors ++ [id] }

def detachFromPoller (id : Nat) : MapComp Unit := do
  let c ← reach id
  store id (some { c with isDetached := true })

def closeEventCallback (inOwnerThread : Bool) (id : Nat) : MapComp Unit := do
  detachFromPoller id
  closeCallback inOwnerThread id

/-- `reset_connection` up to the end of the close callback. -/
def notifyReset (inOwnerThread : Bool) (id : Nat) : MapComp Unit := do
  if (← reach id).isReset then throw (.logFatal "never reaches here")
  closeCallback inOwnerThread id

/-- `reset_connection` from `get_fd` on. -/
def finishReset (id : Nat) : MapComp Unit := do
  let c ← reach id
  match ← nextReset with
  | .setsockoptFailed => throw (.logFatal "setsockopt failed")
  | .closeFailed => throw (.logFatal "close failed")
  | .success =>
    countClose id
    store id (some { c with isReset := true })

def resetConnection (inOwnerThread : Bool) (id : Nat) : MapComp Unit := do
  notifyReset inOwnerThread id
  finishReset id

/-- `abort_from_event_loop` up to the end of the close callback. -/
def beginAbort (inOwnerThread : Bool) (id : Nat) : MapComp Unit := do
  if (← reach id).isAborted then throw (.logFatal "never reaches here")
  detachFromPoller id
  notifyReset inOwnerThread id

/-- `abort_from_event_loop` from there on. -/
def endAbort (id : Nat) : MapComp Unit := do
  finishReset id
  let c ← reach id
  store id (some { c with isAborted := true })

def abortFromEventLoop (inOwnerThread : Bool) (id : Nat) : MapComp Unit := do
  if (← reach id).isAborted then throw (.logFatal "never reaches here")
  detachFromPoller id
  resetConnection inOwnerThread id
  let c ← reach id
  store id (some { c with isAborted := true })

theorem abortFromEventLoop_eq (inOwnerThread : Bool) (id : Nat) :
    abortFromEventLoop inOwnerThread id =
      (do beginAbort inOwnerThread id; endAbort id) := by
  unfold abortFromEventLoop beginAbort endAbort resetConnection
  simp only [bind_assoc]
  congr
  funext c
  split
  · rfl
  · simp only [bind_assoc]

def checkAndAbortImpl (inOwnerThread predicate : Bool) (id : Nat) : MapComp Unit :=
  if predicate then abortFromEventLoop inOwnerThread id else pure ()

/-- The functor shares the connection. Without a thread pool the loop of every connection is the
main loop. -/
def checkAndAbortFromEventLoop (threadPoolCapacity : Nat) (predicate : Bool) (id : Nat) :
    MapComp Unit := do
  acquire id
  if threadPoolCapacity = 0 then
    checkAndAbortImpl true predicate id
    release id
  else modify fun m => { m with checks := m.checks ++ [id] }

variable {m : ConnectionMap} {id : Nat} {c : Connection} {E : MapFault → ConnectionMap → Prop}

theorem wp_reach {Q : Connection → ConnectionMap → Prop} (hc : m.connections id = some c) :
    wp (reach id) Q E m = Q c m := by
  simp [reach, hc]

theorem wp_reach_destroyed {Q : Connection → ConnectionMap → Prop}
    (hc : m.connections id = none) : wp (reach id) Q E m = E (.destroyedObject id) m := by
  simp [reach, hc]

variable {Q : Unit → ConnectionMap → Prop}

@[simp] theorem wp_store (c : Option Connection) :
    wp (store id c) Q E m = Q () { m with connections := update m.connections id c } := rfl

@[simp] theorem wp_countClose :
    wp (countClose id) Q E m = Q () { m with closes := update m.closes id (m.closes id + 1) } :=
  rfl

@[simp] theorem wp_nextReset {Q : ResetResult → ConnectionMap → Prop} :
    wp nextReset Q E m = Q (m.resets.headD .success) { m with resets := m.resets.tail } := rfl

theorem wp_acquire (hc : m.connections id = some c) :
    wp (acquire id) Q E m = Q () { m with
      connections := update m.connections id
        (some { c with references := c.references + 1 }) } := by
  simp [acquire, wp_reach hc]

theorem wp_detachFromPoller (hc : m.connections id = some c) :
    wp (detachFromPoller id) Q E m = Q () { m with
      connections := update m.connections id (some { c with isDetached := true }) } := by
  simp [detachFromPoller, wp_reach hc]

/-- In the thread of a worker the close callback only posts. -/
theorem wp_closeCallback_posted :
    wp (closeCallback false id) Q E m =
      Q () { m with closeFunctors := m.closeFunctors ++ [id] } := rfl

/-- Destroying a connection closes the descriptor unless a reset has closed it. -/
theorem wp_destroy (hc : m.connections id = some c)
    (hreset : c.isReset = true → Q () { m with connections := update m.connections id none })
    (hclose : c.isReset = false → Q () { m with
      resets := m.resets.tail
      closes := update m.closes id (m.closes id + 1)
      connections := update m.connections id none })
    (hfail : c.isReset = false → m.resets.headD .success ≠ .success →
      ∀ t, E (.logFatal "failed to close fd") t) : wp (destroy id) Q E m := by
  cases hr : c.isReset with
  | true => simpa [destroy, wp_reach hc, hr] using hreset hr
  | false =>
    simp only [destroy, wp_bind, wp_reach hc, hr, wp_nextReset, wp_ite, wp_throw, wp_countClose,
      wp_store, Bool.not_false, if_true]
    split
    · rename_i hk
      exact hfail hr hk _
    · exact hclose hr

theorem wp_beginAbort_posted (hc : m.connections id = some c) (ha : c.isAborted = false)
    (hr : c.isReset = false) (h : Q () { m with
      connections := update m.connections id (some { c with isDetached := true })
      closeFunctors := m.closeFunctors ++ [id] }) : wp (beginAbort false id) Q E m := by
  simp only [beginAbort, notifyReset, wp_bind, wp_reach hc, ha, wp_ite, wp_detachFromPoller hc]
  rw [wp_reach (update_self ..)]
  simpa [hr, ha, wp_closeCallback_posted] using h

theorem wp_finishReset (hc : m.connections id = some c)
    (hclose : Q () { m with
      resets := m.resets.tail
      closes := update m.closes id (m.closes id + 1)
      connections := update m.connections id (some { c with isReset := true }) })
    (hfail : m.resets.headD .success ≠ .success →
      ∀ message t, message ≠ "never reaches here" → E (.logFatal message) t) :
    wp (finishReset id) Q E m := by
  simp only [finishReset, wp_bind, wp_reach hc, wp_nextReset]
  cases hk : m.resets.headD .success with
  | success => exact hclose
  | setsockoptFailed => exact hfail (by rw [hk]; decide) _ _ (by decide)
  | closeFailed => exact hfail (by rw [hk]; decide) _ _ (by decide)

theorem wp_endAbort (hc : m.connections id = some c)
    (hclose : Q () { m with
      resets := m.resets.tail
      closes := update m.closes id (m.closes id + 1)
      connections := update m.connections id (some { c with isReset := true, isAborted := true }) })
    (hfail : m.resets.headD .success ≠ .success →
      ∀ message t, message ≠ "never reaches here" → E (.logFatal message) t) :
    wp (endAbort id) Q E m := by
  unfold endAbort
  rw [wp_bind]
  refine wp_finishReset hc ?_ hfail
  simpa [wp_reach] using hclose

/-- A connection that loses its last `shared_ptr` is destroyed. -/
theorem wp_release (hc : m.connections id = some c)
    (hkept : id ∈ m.entries ∨ 1 < c.references → Q () { m with
      connections := update m.connections id (some { c with references := c.references - 1 }) })
    (hreset : id ∉ m.entries → c.isReset = true →
      Q () { m with connections := update m.connections id none })
    (hclose : id ∉ m.entries → c.isReset = false → Q () { m with
      resets := m.resets.tail
      closes := update m.closes id (m.closes id + 1)
      connections := update m.connections id none })
    (hfail : id ∉ m.entries → c.isReset = false → m.resets.headD .success ≠ .success →
      ∀ t, E (.logFatal "failed to close fd") t) : wp (release id) Q E m := by
  simp only [release, wp_bind, wp_reach hc, wp_store, wp_get, wp_ite]
  split
  · rename_i hlast
    refine wp_destroy (c := { c with references := c.references - 1 }) (by simp) ?_ ?_
      (hfail hlast.2)
    · simpa using hreset hlast.2
    · simpa using hclose hlast.2
  · rename_i hn
    apply hkept
    by_cases hid : id ∈ m.entries
    · exact Or.inl hid
    · exact Or.inr (by simpa [hid] using hn)

/-- Erasing an entry destroys the connection that nothing else shares. -/
theorem wp_eraseEntry (hc : m.connections id = some c)
    (hkept : 0 < c.references → Q () { m with entries := m.entries.erase id })
    (hreset : c.references = 0 → c.isReset = true → Q () { m with
      entries := m.entries.erase id
      connections := update m.connections id none })
    (hclose : c.references = 0 → c.isReset = false → Q () { m with
      entries := m.entries.erase id
      resets := m.resets.tail
      closes := update m.closes id (m.closes id + 1)
      connections := update m.connections id none })
    (hfail : c.references = 0 → c.isReset = false → m.resets.headD .success ≠ .success →
      ∀ t, E (.logFatal "failed to close fd") t) : wp (eraseEntry id) Q E m := by
  have hc' : { m with entries := m.entries.erase id }.connections id = some c := hc
  simp only [eraseEntry, wp_bind, wp_modify, wp_reach hc', wp_ite]
  split
  · rename_i hlast
    exact wp_destroy hc' (hreset hlast) (hclose hlast) (hfail hlast)
  · exact hkept (by omega)

theorem wp_notifyReset (inOwnerThread : Bool) (hc : m.connections id = some c)
    (hr : c.isReset = false) (h : wp (closeCallback inOwnerThread id) Q E m) :
    wp (notifyReset inOwnerThread id) Q E m := by
  simpa [notifyReset, wp_reach hc, hr] using h

/-- In the thread of the main loop the close callback erases the entry before it returns. -/
theorem wp_closeCallback_inPlace (hid : id ∈ m.entries) (h : wp (eraseEntry id) Q E m) :
    wp (closeCallback true id) Q E m := by
  simpa [closeCallback, runCloseFunctor, hid] using h

/-- A connection that something shares besides the map outlives its entry. -/
theorem wp_beginAbort_inPlace (hc : m.connections id = some c) (ha : c.isAborted = false)
    (hr : c.isReset = false) (hid : id ∈ m.entries) (hrefs : 0 < c.references)
    (h : Q () { m with
      connections := update m.connections id (some { c with isDetached := true })
      entries := m.entries.erase id }) : wp (beginAbort true id) Q E m := by
  have hne : c.references ≠ 0 := by omega
  simp only [beginAbort, wp_bind, wp_reach hc, ha, wp_detachFromPoller hc, Bool.false_eq_true,
    if_false]
  refine wp_notifyReset true (update_self ..) (by exact hr) (wp_closeCallback_inPlace hid ?_)
  exact wp_eraseEntry (update_self ..) (fun _ => by simpa [ha] using h) (fun hz => absurd hz hne)
    (fun hz => absurd hz hne) fun hz => absurd hz hne

end ConnectionMap

open ConnectionMap

variable {κ ρ : Type}

/-- What the map sees of a connection. -/
def Connection.ofState (s : State κ ρ) (references : Nat) : Connection where
  isDetached := s.conn.pollable.isDetached
  isReset := s.conn.isReset
  isAborted := s.conn.isAborted
  references := references

/-- On a worker `abort_from_event_loop` does to what the map sees of a connection what it does to
the connection, and it posts one close functor and closes the descriptor once. -/
theorem abortFromEventLoop_ofState {m : ConnectionMap} {id references : Nat} {s : State κ ρ}
    (hc : m.connections id = some (.ofState s references)) (hk : m.resets = s.kernel.resets)
    (hcallback : s.conn.hasCloseCallback = true) :
    wp TcpConnectSocketfd.abortFromEventLoop
      (fun _ t => wp (abortFromEventLoop false id)
        (fun _ n => n.connections id = some (.ofState t references) ∧
          n.resets = t.kernel.resets ∧ n.closeFunctors = m.closeFunctors ++ [id] ∧
          n.closes id = m.closes id + 1) (fun _ _ => False) m)
      (fun e _ => wp (abortFromEventLoop false id) (fun _ _ => False)
        (fun f _ => ∃ message, e = .logFatal message ∧ f = .logFatal message) m) s := by
  rw [abortFromEventLoop_eq]
  unfold TcpConnectSocketfd.abortFromEventLoop TcpConnectSocketfd.resetConnection
  cases ha : s.conn.isAborted with
  | true => simp [ha, beginAbort, wp_reach hc, Connection.ofState]
  | false =>
    cases hr : s.conn.isReset with
    | true =>
      simp [ha, hr, beginAbort, notifyReset, wp_reach, wp_detachFromPoller hc, hc,
        Connection.ofState, TcpConnectSocketfd.detachFromPoller]
    | false =>
      -- the answers of the kernel decide the rest, on both sides alike
      cases hanswer : s.kernel.resets.head?.getD .success <;>
        simp [ha, hr, hk, hanswer, hcallback, beginAbort, endAbort, notifyReset, finishReset,
          wp_reach, wp_detachFromPoller hc, wp_closeCallback_posted, hc, Connection.ofState,
          TcpConnectSocketfd.detachFromPoller, TcpConnectSocketfd.runCloseCallback,
          TcpConnectSocketfd.nextReset]

end XubinhServer.TcpServer

import XubinhServer.TcpServer.CircularWait

/-! The sweeps over inactive connections. A check that waits for a worker finds its connection as
the sweep has left it, as long as nothing closes the connection in between. -/
namespace XubinhServer.TcpServer

open EventPoller Halting TcpConnectSocketfd Transition

open Function (update)

variable {κ ρ : Type}

/-- An attached connection has neither notified the server nor been reset. -/
def Untouched (s : State κ ρ) : Prop :=
  s.conn.pollable.isDetached = false →
    s.history.closeCallbackRuns = 0 ∧ s.conn.isReset = false ∧ s.conn.isAborted = false

section Methods
variable {s t : State κ ρ} {writeComplete : Comp κ ρ Unit} {E : Halt → State κ ρ → Prop}

theorem Untouched.of_detached (hd : s.conn.pollable.isDetached = true) : Untouched s :=
  fun h => absurd (hd.symm.trans h) (by decide)

theorem Untouched.of_same (hs : Untouched s)
    (hd : s.conn.pollable.isDetached = true → t.conn.pollable.isDetached = true)
    (hruns : t.history.closeCallbackRuns = s.history.closeCallbackRuns)
    (hreset : t.conn.isReset = s.conn.isReset) (haborted : t.conn.isAborted = s.conn.isAborted) :
    Untouched t := by
  intro ht
  have hattached : s.conn.pollable.isDetached = false := by
    by_contra hn
    rw [hd (by simpa using hn)] at ht
    cases ht
  rw [hruns, hreset, haborted]
  exact hs hattached

theorem Untouched.aborted : Untouched s.aborted :=
  .of_detached (PollableFileDescriptor.detachFromPoller_isDetached _)

/-- Any end of the program will do. -/
def anyHalt (_ : Halt) (_ : State κ ρ) : Prop := True

theorem wp_abort_untouched {Q : Unit → State κ ρ → Prop} (hQ : ∀ t, Untouched t → Q () t) :
    wp abortFromEventLoop Q anyHalt s :=
  wp_abort_of (fun _ _ _ => trivial) fun _ _ => hQ _ .aborted

theorem send_untouched (data : List UInt8) (hw : Keeps Untouched anyHalt writeComplete) :
    Keeps Untouched anyHalt (send writeComplete data) := by
  intro s hs
  simp only [send, record, wp_bind, wp_modify, wp_get, wp_ite, wp_pure]
  split
  · exact hs.of_same id rfl rfl rfl
  · rename_i hd
    split
    · exact wp_appendOutput (fun _ _ => hs.of_same id rfl rfl rfl) trivial
    · apply sendAsManyData_rule
      · intro ks n _
        simp only [wp_ite, wp_bind, enableWriteEvent]
        split
        · exact hw _ (hs.of_same id rfl rfl rfl)
        · exact wp_appendOutput (fun _ _ => hs.of_same (fun h => absurd h hd) rfl rfl rfl) trivial
      · intro ks n
        refine wp_abort_untouched fun t ht => ?_
        simp only [if_true]
        exact hw t ht

theorem shutdownWrite_untouched (hw : Keeps Untouched anyHalt writeComplete) :
    Keeps Untouched anyHalt (shutdownWrite writeComplete) := by
  intro s hs
  have hfinish : ∀ t : State κ ρ, Untouched t →
      wp (do
        disableWriteEvent
        writeComplete
        modify fun s => { s with
          conn.outputBuffer := s.conn.outputBuffer.release
          conn.context := none
          conn.isWriteEndShutdown := true }) (fun _ => Untouched) anyHalt t := by
    intro t ht
    simp only [wp_bind, disableWriteEvent, wp_modify]
    have hdisabled : Untouched { t with conn.pollable := t.conn.pollable.disableWriteEvent } :=
      ht.of_same (by simp) rfl rfl rfl
    exact wp_mono (hw _ hdisabled) (fun _ u hu => hu.of_same id rfl rfl rfl) fun _ _ h => h
  simp only [shutdownWrite, record, nextShutdown, wp_bind, wp_modify, wp_modifyGet, wp_get,
    wp_ite, wp_pure]
  split
  · exact hs.of_same id rfl rfl rfl
  · split
    · exact wp_abort_untouched fun t ht => ht
    · split
      · exact hfinish _ (.of_detached (by simp))
      · exact hfinish _ (hs.of_same id rfl rfl rfl)

theorem flushAndComplete_untouched (hw : Keeps Untouched anyHalt writeComplete)
    (hs : Untouched s) :
    wp (flushAndComplete writeComplete) (fun _ => Untouched) anyHalt s := by
  have hflush : wp flushOutput (fun _ => Untouched) anyHalt s := by
    refine flushOutput_rule ?_ ?_ fun _ => hs
    · exact fun ks n _ => hs.of_same id rfl rfl rfl
    · exact fun ks n => wp_abort_untouched fun t ht => ht.of_same id rfl rfl rfl
  refine flushAndComplete_rule hflush (fun t ht => ?_) fun _ => id
  exact hw _ (ht.of_same (by simp) rfl rfl rfl)

theorem kept_untouched : Kept (κ := κ) (ρ := ρ) Untouched Untouched anyHalt where
  halt _ _ _ _ := trivial
  count _ hs := hs.of_same id rfl rfl rfl
  disableRead _ hs := hs.of_same (by simp) rfl rfl rfl
  input _ _ hs := hs.of_same id rfl rfl rfl
  send _ data hw := send_untouched data hw
  shutdownWrite _ s _ hw _ hs := shutdownWrite_untouched hw s hs
  flush _ _ hw hs _ _ := flushAndComplete_untouched hw hs
  closure _ hs _ := hs
  finished _ hs _ := hs

/-- Whatever a dispatch meets, a connection that it leaves attached is untouched. -/
theorem dispatch_untouched (script : Nat → List Call) (depth : Nat) (d : Dispatch)
    (hs : Untouched s) :
    wp (dispatchActiveEvents (runWriteComplete script depth) d.activeEvents d.recvs
        (userMessageCallback (runWriteComplete script depth) d.consumed d.calls))
      (fun _ => Untouched) anyHalt { s with kernel := d.kernel } := by
  have hw : Keeps Untouched anyHalt (runWriteComplete (κ := κ) (ρ := ρ) script depth) :=
    kept_untouched.callback (fun _ h => h) (fun _ _ _ h => h) depth
  have hkernel : Untouched { s with kernel := d.kernel } := hs.of_same id rfl rfl rfl
  apply kept_untouched.dispatch hw hw (kept_untouched.messageCallback hw hw d.consumed
    (fun (_ : .shutdownWrite ∈ d.calls) _ h => h)) hkernel
  intro _
  exact .of_detached (by simp)

end Methods

/-- What a server knows of its connections, however often they have notified it. -/
structure Tracked (s : TcpServer κ ρ) : Prop where
  fresh : ∀ id, s.tcpConnectionIdCounter ≤ id → s.sockets id = none
  notified : ∀ id ∈ s.closeFunctors, ∃ c, s.sockets id = some c ∧
    0 < c.history.closeCallbackRuns
  listed : ∀ id c, s.sockets id = some c → c.history.closeCallbackRuns = 0 →
    id ∈ s.tcpConnectSocketfds
  untouched : s.halted = none → ∀ id c, s.sockets id = some c → Untouched c

section Tracked
variable {s : TcpServer κ ρ} {id : Nat} {before : State κ ρ}

theorem tracked_new : Tracked (new : TcpServer κ ρ) where
  fresh _ _ := rfl
  notified id h := by simp [new] at h
  listed _ _ h := by cases h
  untouched _ _ _ h := by cases h

theorem Tracked.newConnectionCallback (h : Tracked s) (timeStamp : Int) (context : Option κ)
    (callback : Option WriteCompleteCallback) :
    Tracked (s.newConnectionCallback timeStamp context callback) := by
  have hnone := h.fresh s.tcpConnectionIdCounter (Nat.le_refl _)
  refine ⟨?_, ?_, ?_, ?_⟩
  · intro id hle
    have hne : id ≠ s.tcpConnectionIdCounter := by
      simp only [TcpServer.newConnectionCallback] at hle
      omega
    simp only [TcpServer.newConnectionCallback, if_neg hne] at hle ⊢
    exact h.fresh id (by omega)
  · intro id hid
    obtain ⟨c, hc, hruns⟩ := h.notified id hid
    have hne : id ≠ s.tcpConnectionIdCounter := by
      intro heq
      rw [heq, hnone] at hc
      cases hc
    exact ⟨c, by simpa [TcpServer.newConnectionCallback, hne] using hc, hruns⟩
  · intro id c hc hruns
    simp only [TcpServer.newConnectionCallback] at hc ⊢
    split at hc
    · rename_i heq
      simp [heq]
    · exact List.mem_cons_of_mem _ (h.listed id c hc hruns)
  · intro hrun id c hc
    simp only [TcpServer.newConnectionCallback] at hc
    split at hc
    · cases hc
      exact fun _ => ⟨rfl, rfl, rfl⟩
    · exact h.untouched hrun id c hc

theorem Tracked.setTimeStamp (h : Tracked s) (hid : s.sockets id = some before)
    (timeStamp : Int) : Tracked (s.setTimeStamp id before timeStamp) := by
  have hsome : ∀ i c, (s.setTimeStamp id before timeStamp).sockets i = some c →
      ∃ b, s.sockets i = some b ∧ c.history = b.history ∧ (Untouched b → Untouched c) := by
    intro i c hc
    simp only [TcpServer.setTimeStamp] at hc
    split at hc
    · rename_i heq
      cases hc
      exact ⟨before, heq ▸ hid, rfl, fun hb => hb.of_same (fun hd => hd) rfl rfl rfl⟩
    · exact ⟨c, hc, rfl, fun hb => hb⟩
  refine ⟨?_, ?_, ?_, ?_⟩
  · intro i hle
    have hne : i ≠ id := by
      intro heq
      rw [← heq, h.fresh i hle] at hid
      cases hid
    simpa [TcpServer.setTimeStamp, hne] using h.fresh i hle
  · intro i hi
    obtain ⟨c, hc, hruns⟩ := h.notified i hi
    by_cases heq : i = id
    · subst heq
      obtain rfl : before = c := Option.some.inj (hid.symm.trans hc)
      exact ⟨{ before with conn.timeStamp := timeStamp }, by simp [TcpServer.setTimeStamp], hruns⟩
    · exact ⟨c, by simpa [TcpServer.setTimeStamp, heq] using hc, hruns⟩
  · intro i c hc hruns
    obtain ⟨b, hb, hhistory, _⟩ := hsome i c hc
    exact h.listed i b hb (by rwa [← hhistory])
  · intro hrun i c hc
    obtain ⟨b, hb, _, huntouched⟩ := hsome i c hc
    exact huntouched (h.untouched hrun i b hb)

/-- What a worker does to an attached connection. -/
theorem Tracked.afterDispatch {after : State κ ρ} {halted : Option Halt} (h : Tracked s)
    (hid : s.sockets id = some before) (hzero : before.history.closeCallbackRuns = 0)
    (hrun : s.halted = none) (huntouched : halted = none → Untouched after) :
    Tracked (s.afterDispatch id before after halted) := by
  have hother (i : Nat) (hi : i ∈ s.closeFunctors) : i ≠ id := by
    intro heq
    obtain ⟨c, hc, hruns⟩ := h.notified i hi
    rw [heq, hid] at hc
    cases hc
    omega
  refine ⟨?_, ?_, ?_, ?_⟩
  · intro i hle
    have hne : i ≠ id := by
      intro heq
      rw [← heq, h.fresh i hle] at hid
      cases hid
    simpa [TcpServer.afterDispatch, hne] using h.fresh i hle
  · intro i hi
    simp only [TcpServer.afterDispatch] at hi ⊢
    cases List.mem_append.mp hi with
    | inl hi =>
      obtain ⟨c, hc, hruns⟩ := h.notified i hi
      exact ⟨c, by simpa [hother i hi] using hc, hruns⟩
    | inr hi =>
      obtain ⟨hpos, rfl⟩ := List.mem_replicate.mp hi
      exact ⟨after, by simp, by omega⟩
  · intro i c hc hruns
    simp only [TcpServer.afterDispatch] at hc ⊢
    split at hc
    · rename_i heq
      subst heq
      exact h.listed i before hid hzero
    · exact h.listed i c hc hruns
  · intro hrun' i c hc
    simp only [TcpServer.afterDispatch] at hrun' hc
    split at hc
    · cases hc
      exact huntouched hrun'
    · exact h.untouched hrun i c hc

theorem Tracked.runs_eq_zero (h : Tracked s) (hrun : s.halted = none)
    (hid : s.sockets id = some before) (hd : before.conn.pollable.isDetached = false) :
    before.history.closeCallbackRuns = 0 :=
  (h.untouched hrun id before hid hd).1

theorem Tracked.dispatch (h : Tracked s) (hrun : s.halted = none)
    (hid : s.sockets id = some before) (hd : before.conn.pollable.isDetached = false)
    (script : Nat → List Call) (depth : Nat) (d : Dispatch) :
    Tracked (s.dispatch (runWriteComplete script depth) id before d) := by
  have hzero := h.runs_eq_zero hrun hid hd
  have hkept := dispatch_untouched script depth d (h.untouched hrun id before hid)
  simp only [TcpServer.dispatch]
  split
  · rename_i after hafter
    exact h.afterDispatch hid hzero hrun fun _ => wp_of_ok hkept hafter
  · exact h.afterDispatch hid hzero hrun (by simp)

/-- A check that finds its connection attached notifies the server once and reaches nothing that
is said never to be reached. -/
theorem wp_abort_attached (hs : Untouched before)
    (hd : before.conn.pollable.isDetached = false) :
    wp abortFromEventLoop
      (fun _ t => Untouched t ∧ t.conn.pollable.isDetached = true ∧
        t.history.closeCallbackRuns ≤ 1)
      (fun e t => e ≠ .logFatal "never reaches here" ∧ t.history.closeCallbackRuns ≤ 1)
      before := by
  obtain ⟨hruns, hreset, haborted⟩ := hs hd
  have hone : before.aborted.history.closeCallbackRuns ≤ 1 := by
    simp only [State.aborted, hruns]
    split <;> omega
  apply abortFromEventLoop_rule
  · intro _ _
    exact ⟨.aborted, PollableFileDescriptor.detachFromPoller_isDetached _, hone⟩
  · intro h
    simp [haborted, hreset] at h
  · intro _ _ message t hmessage ht
    refine ⟨?_, by rwa [ht.1]⟩
    intro heq
    cases heq
    revert hmessage
    decide

theorem Tracked.abort (h : Tracked s) (hrun : s.halted = none)
    (hid : s.sockets id = some before) (hd : before.conn.pollable.isDetached = false)
    (resets : List ResetResult) : Tracked (s.abort id before resets) := by
  have hzero := h.runs_eq_zero hrun hid hd
  have hkernel : Untouched { before with kernel := ⟨[], [], resets⟩ } :=
    (h.untouched hrun id before hid).of_same (fun hd => hd) rfl rfl rfl
  have habort := wp_abort_attached hkernel hd
  simp only [TcpServer.abort]
  split
  · rename_i after hafter
    exact h.afterDispatch hid hzero hrun fun _ => (wp_of_ok habort hafter).1
  · exact h.afterDispatch hid hzero hrun (by simp)

theorem Tracked.runCloseFunctor (h : Tracked s) (hid : id ∈ s.closeFunctors) :
    Tracked (s.runCloseFunctor id) := by
  obtain ⟨c, hc, hruns⟩ := h.notified id hid
  have hnotified (i : Nat) (hi : i ∈ s.closeFunctors.erase id) :
      ∃ c, s.sockets i = some c ∧ 0 < c.history.closeCallbackRuns :=
    h.notified i (List.mem_of_mem_erase hi)
  simp only [TcpServer.runCloseFunctor]
  split
  · refine ⟨h.fresh, hnotified, ?_, h.untouched⟩
    intro i b hb hzero
    have hne : i ≠ id := by
      intro heq
      rw [heq, hc] at hb
      cases hb
      omega
    exact (List.mem_erase_of_ne hne).mpr (h.listed i b hb hzero)
  · exact ⟨h.fresh, hnotified, h.listed, by simp⟩

end Tracked

/-- Every dispatch may happen, every check whose predicate holds aborts, and the main loop may push
to any queue. -/
def unrestricted : Allowed κ ρ where
  dispatch _ _ := True
  abort _ := True
  post _ _ := True

namespace Threads

/-- The connection for which the main loop is in `push`. -/
def posting (s : Threads κ ρ) : List Nat :=
  match s.main with
  | .posting f _ => [f.id]
  | _ => []

/-- The connections of worker `i` that have a check there. -/
def checked (s : Threads κ ρ) (i : Nat) : List Nat :=
  ((s.workers i).functors ++ (s.workers i).batch).map CheckAndAbort.id

/-- The checks on their way to the worker of `id`, or with it. -/
def waiting (setup : Setup) (s : Threads κ ρ) (id : Nat) : List Nat :=
  s.posting ++ s.checked (setup.loopIndex id)

/-- A check for the connection `id` has not run yet. -/
def Waits (setup : Setup) (s : Threads κ ρ) (id : Nat) : Prop := id ∈ s.waiting setup id

def Attached (s : Threads κ ρ) (id : Nat) : Prop :=
  ∃ c, s.server.sockets id = some c ∧ c.conn.pollable.isDetached = false

/-- How many checks for `id` wait. -/
def countWaiting (setup : Setup) (s : Threads κ ρ) (id : Nat) : Nat :=
  (s.waiting setup id).count id

/-- The sweep makes checks for attached connections only, no event closes a connection while a
check for it waits, and a check whose predicate holds is the only one that waits for its
connection. -/
structure Timely (setup : Setup) (s t : Threads κ ρ) : Prop where
  check : ∀ f rest, s.main ≠ .posting f rest → t.main = .posting f rest → s.Attached f.id
  /-- A step that takes no functor from a batch is an event if it detaches a connection. -/
  event : (∀ i, (t.workers i).batch = (s.workers i).batch) → ∀ id, s.Attached id →
    t.Attached id ∨ ¬s.Waits setup id
  alone : ∀ i f batch c, (s.workers i).batch = f :: batch → (t.workers i).batch = batch →
    s.server.sockets f.id = some c → setup.Inactive f.currentTimePoint c →
    s.countWaiting setup f.id ≤ 1

/-- What holds of the checks in a timely run. -/
structure Swept (setup : Setup) (s : Threads κ ρ) : Prop where
  tracked : Tracked s.server
  posted : Posted setup s
  routed : Routed setup s
  attached : ∀ id, s.Waits setup id → s.Attached id

/-- A step from `s` to `t` in which `_check_and_abort_impl` calls `abort_from_event_loop`. -/
def Aborts (setup : Setup) (f : CheckAndAbort) (before : State κ ρ) (s t : Threads κ ρ) : Prop :=
  s.server.halted = none ∧ ∃ i batch resets,
    (s.workers i).batch = f :: batch ∧ (s.workers i).closing = [] ∧
    s.server.sockets f.id = some before ∧ setup.Inactive f.currentTimePoint before ∧
    t = s.afterCallback i batch (s.server.abort f.id before resets)

/-- The connection that the check `f` aborts is attached and open, it has been quiet for too long,
and the entry through which the predicate has read its time stamp is in the map. -/
structure SafeAbort (setup : Setup) (s : Threads κ ρ) (f : CheckAndAbort) (before : State κ ρ) :
    Prop where
  attached : before.conn.pollable.isDetached = false
  unclosed : before.history.closeCallbackRuns = 0
  unreset : before.conn.isReset = false
  unaborted : before.conn.isAborted = false
  inactive : setup.Inactive f.currentTimePoint before
  listed : f.id ∈ s.server.tcpConnectSocketfds

/-- The connection `id` has been reported closed once at most, and it will not be again. -/
def ClosedOnce (s : Threads κ ρ) (id : Nat) : Prop :=
  ∃ c, s.server.sockets id = some c ∧ c.history.closeCallbackRuns ≤ 1 ∧
    (s.server.halted = none → c.conn.pollable.isDetached = true)

section Move
variable {setup : Setup} {s t : Threads κ ρ}

/-- The first check of a batch is one that waits. -/
theorem Swept.waits_of_batch (h : Swept setup s) {i : Nat} {f : CheckAndAbort}
    {batch : List CheckAndAbort} (hbatch : (s.workers i).batch = f :: batch) :
    s.Waits setup f.id := by
  have hi : setup.loopIndex f.id = i := h.routed i f (.inr (by simp [hbatch]))
  simp [Waits, waiting, checked, hi, hbatch]

theorem tracked_move (h : Swept setup s) (hrun : s.server.halted = none)
    (hm : Move setup unrestricted s t) : Tracked t.server := by
  cases hm with
  | accept timeStamp context callback hm =>
    exact h.tracked.newConnectionCallback timeStamp context callback
  | runCloseFunctor i id batch hm =>
    apply h.tracked.runCloseFunctor
    have hcount := h.posted i id
    rw [← List.count_pos_iff]
    simp only [popped, hm, if_true, List.count_cons_self] at hcount
    split at hcount
    · omega
    · omega
  | setTimeStamp id before timeStamp hid => exact h.tracked.setTimeStamp hid timeStamp
  | dispatch id before d hbatch hclosing hid hattached hallowed =>
    exact h.tracked.dispatch hrun hid hattached (setup.script id) setup.depth d
  | abort i f batch before resets hbatch hclosing hid hinactive hallowed =>
    obtain ⟨c, hc, hd⟩ := h.attached f.id (h.waits_of_batch hbatch)
    obtain rfl : before = c := Option.some.inj (hid.symm.trans hc)
    exact h.tracked.abort hrun hid hd resets
  | _ => exact h.tracked

theorem waits_iff (id : Nat) : s.Waits setup id ↔ 0 < s.countWaiting setup id :=
  List.count_pos_iff.symm

theorem countWaiting_of_checked (hposting : t.posting = s.posting)
    (hchecked : ∀ i, t.checked i = s.checked i) (id : Nat) :
    t.countWaiting setup id = s.countWaiting setup id := by
  rw [countWaiting, waiting, hposting, hchecked, ← waiting, ← countWaiting]

theorem countWaiting_of_popped {i : Nat} {f : CheckAndAbort} {batch : List CheckAndAbort}
    {w : Worker} (hrouted : Routed setup s) (hbatch : (s.workers i).batch = f :: batch)
    (hposting : t.posting = s.posting) (hworkers : t.workers = update s.workers i w)
    (hfunctors : w.functors = (s.workers i).functors) (hw : w.batch = batch) (id : Nat) :
    s.countWaiting setup id = t.countWaiting setup id + if id = f.id then 1 else 0 := by
  have hi : setup.loopIndex f.id = i := hrouted i f (.inr (by simp [hbatch]))
  simp only [countWaiting, waiting, checked, hposting, hworkers, List.count_append,
    List.map_append]
  by_cases hid : setup.loopIndex id = i
  · simp only [hid, Function.update_self, hfunctors, hw, hbatch, List.map_cons, List.count_cons,
      beq_iff_eq, eq_comm (a := f.id)]
    omega
  · have hne : id ≠ f.id := by
      intro heq
      rw [heq] at hid
      exact hid hi
    simp [Function.update_of_ne hid, hne]

/-- An event leaves the batches alone. -/
theorem batch_afterCallback {i : Nat} (hbatch : (s.workers i).batch = [])
    (server : TcpServer κ ρ) (j : Nat) :
    ((s.afterCallback i [] server).workers j).batch = (s.workers j).batch := by
  by_cases hj : j = i
  · subst hj
    simp [afterCallback, hbatch]
  · simp [afterCallback, hj]

theorem countWaiting_of_event {i : Nat} (hbatch : (s.workers i).batch = [])
    (server : TcpServer κ ρ) (id : Nat) :
    (s.afterCallback i [] server).countWaiting setup id = s.countWaiting setup id := by
  have hposting : (s.afterCallback i [] server).posting = s.posting := rfl
  refine countWaiting_of_checked hposting (fun j => ?_) id
  rw [checked, batch_afterCallback hbatch]
  by_cases hj : j = i
  · subst hj
    simp [afterCallback, checked]
  · simp [afterCallback, checked, hj]

/-- What a step does to the checks that wait: nothing, or it makes one, or it takes the first of
a batch. -/
theorem countWaiting_move {allowed : Allowed κ ρ} (hrouted : Routed setup s)
    (hm : Move setup allowed s t) :
    (∀ id, t.countWaiting setup id = s.countWaiting setup id) ∨
    (∃ f rest, s.main ≠ .posting f rest ∧ t.main = .posting f rest ∧
      ∀ id, t.countWaiting setup id = s.countWaiting setup id + if id = f.id then 1 else 0) ∨
    ∃ f : CheckAndAbort,
      ∀ id, s.countWaiting setup id = t.countWaiting setup id + if id = f.id then 1 else 0 := by
  cases hm with
  | check now id rest socket hm =>
    refine Or.inr (Or.inl ⟨_, _, by simp [hm], rfl, ?_⟩)
    intro i
    have hposting : s.posting = [] := by simp [posting, hm]
    simp only [countWaiting, waiting, hposting, List.nil_append]
    simp only [posting, checked, List.count_cons, List.singleton_append, beq_iff_eq,
      eq_comm (a := id)]
  | keep i f batch before hbatch hclosing hid hactive =>
    exact Or.inr (Or.inr ⟨f, countWaiting_of_popped hrouted hbatch rfl rfl rfl rfl⟩)
  | abort i f batch before resets hbatch hclosing hid hinactive hallowed =>
    exact Or.inr (Or.inr ⟨f, countWaiting_of_popped hrouted hbatch rfl rfl rfl rfl⟩)
  | postCheck f rest hm hroom =>
    -- the check moves from the hand of the main loop to the queue
    left
    intro id
    have hposting : s.posting = [f.id] := by simp [posting, hm]
    simp only [countWaiting, waiting, hposting]
    simp only [posting, checked, List.nil_append, List.map_append, List.count_append]
    by_cases hid : setup.loopIndex id = setup.loopIndex f.id
    · simp only [hid, Function.update_self, List.map_append, List.map_cons, List.map_nil,
        List.count_append]
      omega
    · have hne : f.id ≠ id := by
        intro heq
        rw [heq] at hid
        exact hid rfl
      simp [Function.update_of_ne hid, hne]
  | dispatch id before d hbatch =>
    exact Or.inl (countWaiting_of_event hbatch _)
  | popFunctors j hbatch =>
    left
    refine countWaiting_of_checked rfl fun i => ?_
    by_cases hi : i = j
    · subst hi
      simp [checked, hbatch]
    · simp [checked, hi]
  | postClose j id closing =>
    left
    refine countWaiting_of_checked rfl fun i => ?_
    by_cases hi : i = j
    · subst hi
      simp [checked]
    · simp [checked, hi]
  | _ =>
    left
    refine countWaiting_of_checked ?_ fun _ => rfl
    simp [posting, *]

/-- What a step does to a connection: nothing but to its time stamp, or a worker dispatches an
event to it or runs a check for it that aborts it. -/
theorem sockets_move {allowed : Allowed κ ρ} {id : Nat} {c : State κ ρ} (h : Tracked s.server)
    (hm : Move setup allowed s t) (hc : s.server.sockets id = some c) :
    (∃ b, t.server.sockets id = some b ∧ b.conn.pollable = c.conn.pollable ∧
      b.history = c.history) ∨
    (c.conn.pollable.isDetached = false ∧ ∃ server, (s.workers (setup.loopIndex id)).batch = [] ∧
      t = s.afterCallback (setup.loopIndex id) [] server) ∨
    ∃ i f batch server, (s.workers i).batch = f :: batch ∧ f.id = id ∧
      setup.Inactive f.currentTimePoint c ∧ t = s.afterCallback i batch server := by
  cases hm with
  | accept timeStamp context callback hm =>
    have hne : id ≠ s.server.tcpConnectionIdCounter := by
      intro heq
      rw [heq, h.fresh _ (Nat.le_refl _)] at hc
      cases hc
    exact Or.inl ⟨c, by simpa [newConnectionCallback, hne] using hc, rfl, rfl⟩
  | runCloseFunctor i j batch hm =>
    refine Or.inl ⟨c, ?_, rfl, rfl⟩
    simp only [TcpServer.runCloseFunctor]
    split
    · exact hc
    · exact hc
  | setTimeStamp i before timeStamp hi =>
    left
    by_cases heq : id = i
    · subst heq
      obtain rfl : before = c := Option.some.inj (hi.symm.trans hc)
      exact ⟨{ before with conn.timeStamp := timeStamp }, by simp [TcpServer.setTimeStamp], rfl,
        rfl⟩
    · exact ⟨c, by simpa [TcpServer.setTimeStamp, heq] using hc, rfl, rfl⟩
  | dispatch i before d hbatch hclosing hi hattached hallowed =>
    by_cases heq : id = i
    · subst heq
      obtain rfl : before = c := Option.some.inj (hi.symm.trans hc)
      exact Or.inr (Or.inl ⟨hattached, _, hbatch, rfl⟩)
    · obtain ⟨after, halted, hserver⟩ := dispatch_eq
        (runWriteComplete (setup.script i) setup.depth) s.server i before d
      refine Or.inl ⟨c, ?_, rfl, rfl⟩
      rw [hserver]
      simpa [afterCallback, afterDispatch, heq] using hc
  | abort i f batch before resets hbatch hclosing hi hinactive hallowed =>
    by_cases heq : id = f.id
    · subst heq
      obtain rfl : before = c := Option.some.inj (hi.symm.trans hc)
      exact Or.inr (Or.inr ⟨i, f, batch, _, hbatch, rfl, hinactive, rfl⟩)
    · obtain ⟨after, halted, hserver⟩ := abort_eq s.server f.id before resets
      refine Or.inl ⟨c, ?_, rfl, rfl⟩
      rw [hserver]
      simpa [afterCallback, afterDispatch, heq] using hc
  | _ => exact Or.inl ⟨c, hc, rfl, rfl⟩

/-- A connection that a check still waits for after the step stays attached. -/
theorem attached_move {id : Nat} (h : Swept setup s) (hm : Move setup unrestricted s t)
    (htimely : Timely setup s t) (hid : s.Attached id) : t.Attached id ∨ ¬t.Waits setup id := by
  obtain ⟨c, hc, hd⟩ := hid
  obtain ⟨b, hb, hpollable, -⟩ | ⟨-, server, hbatch, rfl⟩ |
    ⟨i, f, batch, server, hbatch, rfl, hinactive, rfl⟩ := sockets_move h.tracked hm hc
  · exact Or.inl ⟨b, hb, by rwa [hpollable]⟩
  · have hkept := htimely.event (batch_afterCallback hbatch server) id ⟨c, hc, hd⟩
    rwa [waits_iff, ← countWaiting_of_event hbatch server, ← waits_iff] at hkept
  · right
    rw [waits_iff]
    have hone : s.countWaiting setup f.id ≤ 1 :=
      htimely.alone i f batch c hbatch (by simp [afterCallback]) hc hinactive
    have hcount := countWaiting_of_popped (t := s.afterCallback i batch server) h.routed hbatch
      rfl rfl rfl rfl f.id
    rw [if_pos rfl] at hcount
    omega

theorem Swept.step (h : Swept setup s)
    (hstep : Restricted (Step setup unrestricted) (Timely setup) s t) : Swept setup t := by
  obtain ⟨⟨hrun, hm⟩, htimely⟩ := hstep
  refine ⟨tracked_move h hrun hm, h.posted.move h.routed hm, h.routed.move hm, ?_⟩
  intro id hid
  have hattached : s.Attached id := by
    rw [waits_iff] at hid
    obtain hsame | ⟨f, rest, hbefore, hafter, hmade⟩ | ⟨f, htaken⟩ :=
      countWaiting_move h.routed hm
    · exact h.attached id ((waits_iff id).mpr (by rwa [← hsame]))
    · by_cases heq : id = f.id
      · rw [heq]
        exact htimely.check f rest hbefore hafter
      · refine h.attached id ((waits_iff id).mpr ?_)
        rw [hmade, if_neg heq] at hid
        exact hid
    · refine h.attached id ((waits_iff id).mpr ?_)
      rw [htaken]
      omega
  exact (attached_move h hm htimely hattached).resolve_right fun hnot => hnot hid

theorem swept_initial : Swept setup (initial κ ρ) where
  tracked := tracked_new
  posted i id := by simp [initial, popped, TcpServer.new]
  routed i f h := by simp [initial] at h
  attached id h := by simp [Waits, waiting, posting, checked, initial] at h

theorem Swept.listed (h : Swept setup s) (hrun : s.server.halted = none) {id : Nat}
    (hid : s.Attached id) : id ∈ s.server.tcpConnectSocketfds := by
  obtain ⟨c, hc, hd⟩ := hid
  exact h.tracked.listed id c hc (h.tracked.runs_eq_zero hrun hc hd)

theorem Swept.safeAbort (h : Swept setup s) {f : CheckAndAbort} {before : State κ ρ}
    (ha : Aborts setup f before s t) : SafeAbort setup s f before := by
  obtain ⟨hrun, i, batch, resets, hbatch, hclosing, hid, hinactive, -⟩ := ha
  have hattached := h.attached f.id (h.waits_of_batch hbatch)
  have hlisted := h.listed hrun hattached
  obtain ⟨c, hc, hd⟩ := hattached
  obtain rfl : before = c := Option.some.inj (hid.symm.trans hc)
  obtain ⟨hruns, hreset, haborted⟩ := h.tracked.untouched hrun f.id before hid hd
  exact ⟨hd, hruns, hreset, haborted, hinactive, hlisted⟩

theorem Aborts.step {f : CheckAndAbort} {before : State κ ρ} (ha : Aborts setup f before s t) :
    Step setup unrestricted s t := by
  obtain ⟨hrun, i, batch, resets, hbatch, hclosing, hid, hinactive, rfl⟩ := ha
  exact ⟨hrun, .abort i f batch before resets hbatch hclosing hid hinactive trivial⟩

theorem Aborts.closedOnce {f : CheckAndAbort} {before : State κ ρ} (h : Swept setup s)
    (ha : Aborts setup f before s t) :
    t.server.halted ≠ some (.logFatal "never reaches here") ∧ t.ClosedOnce f.id := by
  have hsafe := h.safeAbort ha
  obtain ⟨hrun, i, batch, resets, hbatch, hclosing, hid, hinactive, rfl⟩ := ha
  have hkernel : Untouched { before with kernel := ⟨[], [], resets⟩ } :=
    (h.tracked.untouched hrun f.id before hid).of_same (fun hd => hd) rfl rfl rfl
  have habort := wp_abort_attached hkernel hsafe.attached
  simp only [afterCallback, TcpServer.abort]
  split
  · rename_i after hafter
    obtain ⟨-, hd, hone⟩ := wp_of_ok habort hafter
    exact ⟨by simp [afterDispatch], after, by simp [afterDispatch], hone, fun _ => hd⟩
  · rename_i e after hafter
    obtain ⟨he, hone⟩ := wp_of_error habort hafter
    exact ⟨by simpa [afterDispatch] using he, after, by simp [afterDispatch], hone,
      by simp [afterDispatch]⟩

/-- Nothing touches a connection again that is detached. -/
theorem ClosedOnce.move {id : Nat} (hc : s.ClosedOnce id) (h : Swept setup s)
    (hrun : s.server.halted = none) (hm : Move setup unrestricted s t) : t.ClosedOnce id := by
  obtain ⟨c, hc, hone, hdetached⟩ := hc
  have hd := hdetached hrun
  obtain ⟨b, hb, hpollable, hhistory⟩ | ⟨hattached, -⟩ |
    ⟨i, f, batch, server, hbatch, rfl, -, -⟩ := sockets_move h.tracked hm hc
  · exact ⟨b, hb, by rwa [hhistory], fun _ => by rwa [hpollable]⟩
  · rw [hd] at hattached
    cases hattached
  · obtain ⟨b, hb, hattached⟩ := h.attached f.id (h.waits_of_batch hbatch)
    obtain rfl : c = b := Option.some.inj (hc.symm.trans hb)
    rw [hd] at hattached
    cases hattached

end Move

section Example

theorem Aborts.timely {setup : Setup} {s t : Threads κ ρ} {f : CheckAndAbort}
    {before : State κ ρ} (ha : Aborts setup f before s t)
    (hone : s.countWaiting setup f.id ≤ 1) : Timely setup s t := by
  obtain ⟨hrun, i, batch, resets, hbatch, hclosing, hid, hinactive, rfl⟩ := ha
  refine ⟨fun g rest hbefore hafter => absurd hafter hbefore, fun hsame => ?_, ?_⟩
  · have hbatches := hsame i
    simp [afterCallback, hbatch] at hbatches
  · intro j g rest c hg hafter _ _
    by_cases hj : j = i
    · subst hj
      obtain ⟨rfl, -⟩ := List.cons_eq_cons.mp (hbatch.symm.trans hg)
      exact hone
    · simp [afterCallback, hj, hg] at hafter

theorem timely_of_sockets {setup : Setup} {s t : Threads κ ρ}
    (hsockets : t.server.sockets = s.server.sockets) (hidle : ∀ i, (s.workers i).batch = [])
    (hcheck : ∀ f rest, t.main = .posting f rest → s.Attached f.id) : Timely setup s t where
  check f rest _ hafter := hcheck f rest hafter
  event _ id hid := Or.inl (by rwa [Attached, hsockets, ← Attached])
  alone i f batch c hbatch := by simp [hidle i] at hbatch

/-- One worker, and connections that may be quiet for fifteen. -/
def oneWorker : Setup := ⟨1, functorQueueCapacity, 15, fun _ _ => [], 1⟩

/-- The first connection of a server, accepted at time `0`. -/
def accepted : Threads Unit Unit :=
  { initial Unit Unit with server := new.newConnectionCallback 0 none none }

/-- The worker has a check of the sweep at time `16` for it. -/
def sweptOnce : Threads Unit Unit :=
  { accepted with
    main := .sweeping 16 []
    workers := update accepted.workers 0 ⟨[⟨0, 16⟩], [], []⟩ }

theorem reaches_sweptOnce (allowed : Threads Unit Unit → Threads Unit Unit → Prop)
    (hallowed : ∀ s t, Timely oneWorker s t → allowed s t) :
    Reaches (Restricted (Step oneWorker unrestricted) allowed) (initial Unit Unit) sweptOnce := by
  have haccept : Step oneWorker unrestricted (initial Unit Unit) accepted :=
    ⟨rfl, .accept 0 none none rfl⟩
  have hsweep : Step oneWorker unrestricted accepted { accepted with main := .sweeping 16 [0] } :=
    ⟨rfl, .sweep 16 rfl⟩
  have hcheck : Step oneWorker unrestricted { accepted with main := .sweeping 16 [0] }
      { accepted with main := .posting ⟨0, 16⟩ [] } :=
    ⟨rfl, .check 16 0 [] _ rfl rfl (by decide) trivial⟩
  have hpost : Step oneWorker unrestricted { accepted with main := .posting ⟨0, 16⟩ [] }
      sweptOnce :=
    ⟨rfl, .postCheck ⟨0, 16⟩ [] rfl (by decide)⟩
  refine .tail (.tail (.tail (.single ⟨haccept, hallowed _ _ ?_⟩) ⟨hsweep, hallowed _ _ ?_⟩)
    ⟨hcheck, hallowed _ _ ?_⟩) ⟨hpost, hallowed _ _ ?_⟩
  · refine ⟨fun f rest _ h => (by cases h), fun _ id hid => ?_, fun i f batch c h => (by cases h)⟩
    obtain ⟨c, hc, -⟩ := hid
    cases hc
  · exact timely_of_sockets rfl (fun _ => rfl) fun f rest h => by cases h
  · refine timely_of_sockets rfl (fun _ => rfl) fun f rest h => ?_
    cases h
    exact ⟨_, rfl, rfl⟩
  · exact timely_of_sockets rfl (fun _ => rfl) fun f rest h => by cases h

/-- The worker has popped it. -/
def poppedOnce : Threads Unit Unit :=
  { sweptOnce with workers := update sweptOnce.workers 0 ⟨[], [⟨0, 16⟩], []⟩ }

/-- The peer resets the connection, whose check still waits. -/
def resetOnce : Threads Unit Unit :=
  sweptOnce.afterCallback 0 [] (sweptOnce.server.dispatch
    (runWriteComplete (oneWorker.script 0) oneWorker.depth) 0 (started 0 none none) resetByPeer)

/-- The worker has notified the main loop of it. -/
def notifiedOnce : Threads Unit Unit :=
  { resetOnce with
    closeFunctors := update resetOnce.closeFunctors 0 [0]
    workers := update resetOnce.workers 0 ⟨[⟨0, 16⟩], [], []⟩ }

end Example

/-- In a timely run every check reads the time stamp of its connection through an entry of the map,
and one that aborts finds the connection attached, open and inactive; it reports the connection
closed, nothing reports it again, and nothing is reached that is said never to be. -/
theorem sweeps_safe {setup : Setup} {s : Threads κ ρ}
    (hr : Reaches (Restricted (Step setup unrestricted) (Timely setup)) (initial κ ρ) s) :
    (s.server.halted = none → ∀ i f batch, (s.workers i).batch = f :: batch →
      f.id ∈ s.server.tcpConnectSocketfds) ∧
    ∀ f before t, Aborts setup f before s t → Timely setup s t →
      SafeAbort setup s f before ∧ t.server.halted ≠ some (.logFatal "never reaches here") ∧
      ∀ u, Reaches (Restricted (Step setup unrestricted) (Timely setup)) t u →
        u.ClosedOnce f.id := by
  have h : Swept setup s := hr.invariant swept_initial fun _ _ ha hab => ha.step hab
  refine ⟨fun hrun i f batch hbatch => h.listed hrun (h.attached f.id (h.waits_of_batch hbatch)),
    ?_⟩
  intro f before t ha htimely
  obtain ⟨hhalted, hclosed⟩ := ha.closedOnce h
  refine ⟨h.safeAbort ha, hhalted, fun u hu => ?_⟩
  have hboth : Swept setup u ∧ u.ClosedOnce f.id := by
    refine hu.invariant (I := fun u => Swept setup u ∧ u.ClosedOnce f.id)
      ⟨h.step ⟨ha.step, htimely⟩, hclosed⟩ ?_
    intro a b hab hstep
    exact ⟨hab.1.step hstep, hab.2.move hab.1 hstep.1.1 hstep.1.2⟩
  exact hboth.2

theorem sweeps_safe_poppedOnce :
    ∃ (before : State Unit Unit) (t : Threads Unit Unit),
      Aborts oneWorker ⟨0, 16⟩ before poppedOnce t ∧
      SafeAbort oneWorker poppedOnce ⟨0, 16⟩ before ∧
      t.server.halted ≠ some (.logFatal "never reaches here") := by
  have hpop : Step oneWorker unrestricted sweptOnce poppedOnce := ⟨rfl, .popFunctors 0 rfl rfl⟩
  have hidle : ∀ i, (sweptOnce.workers i).batch = [] := by
    intro i
    by_cases hi : i = 0
    · subst hi
      rfl
    · simp [sweptOnce, accepted, initial, hi]
  have htimely : Timely oneWorker sweptOnce poppedOnce :=
    timely_of_sockets rfl hidle fun f rest h => by cases h
  have hreach := (reaches_sweptOnce _ fun _ _ h => h).tail ⟨hpop, htimely⟩
  have habort : Aborts oneWorker ⟨0, 16⟩ _ poppedOnce _ :=
    ⟨rfl, 0, [], [], rfl, rfl, rfl, by decide, rfl⟩
  have h := (sweeps_safe hreach).2 _ _ _ habort (habort.timely (by decide))
  exact ⟨_, _, habort, h.1, h.2.1⟩

/-- The peer resets the connection while the check waits: the check aborts a connection that has
been closed, and the server is notified of it a second time. -/
theorem sweep_aborts_closed :
    ∃ (s : Threads Unit Unit) (before : State Unit Unit) (t : Threads Unit Unit),
      Reaches (Step oneWorker unrestricted) (initial Unit Unit) s ∧
      Aborts oneWorker ⟨0, 16⟩ before s t ∧ before.conn.pollable.isDetached = true ∧
      ∃ c, t.server.sockets 0 = some c ∧ c.history.closeCallbackRuns = 2 := by
  have hswept : Reaches (Step oneWorker unrestricted) (initial Unit Unit) sweptOnce :=
    Relation.ReflTransGen.mono (fun _ _ h => h.1) _ _ (reaches_sweptOnce _ fun _ _ h => h)
  have hdispatch : Step oneWorker unrestricted sweptOnce resetOnce :=
    ⟨rfl, .dispatch 0 _ resetByPeer rfl rfl rfl rfl trivial⟩
  have hpost : Step oneWorker unrestricted resetOnce notifiedOnce :=
    ⟨rfl, .postClose 0 0 [] rfl (by decide)⟩
  have hpop : Step oneWorker unrestricted notifiedOnce
      { notifiedOnce with workers := update notifiedOnce.workers 0 ⟨[], [⟨0, 16⟩], []⟩ } :=
    ⟨rfl, .popFunctors 0 rfl rfl⟩
  refine ⟨_, _, _, .tail (.tail (.tail hswept hdispatch) hpost) hpop,
    ⟨rfl, 0, [], [], rfl, rfl, rfl, by decide, rfl⟩, rfl, _, rfl, rfl⟩

end Threads

end XubinhServer.TcpServer

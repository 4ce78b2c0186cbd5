import XubinhServer.TcpServer

/-! How often the close callback of a connection runs. A dispatch in which `::shutdown` fails
may notify the server twice; without such dispatches every close functor finds its
connection. -/
namespace XubinhServer.TcpServer

open Halting EventPoller TcpConnectSocketfd Transition

variable {κ ρ : Type}

/-- How many of the answers are errors. -/
def failures (answers : List ShutdownResult) : Nat := answers.countP (· ≠ .success)

theorem failures_tail (answers : List ShutdownResult) :
    failures answers =
      failures answers.tail + if answers.headD .success = .success then 0 else 1 := by
  cases answers with
  | nil => rfl
  | cons answer rest => cases answer <;> simp [failures]

/-- A detached connection has notified the server once, an attached one not yet. -/
structure Notified (s : State κ ρ) : Prop where
  runs : s.history.closeCallbackRuns = if s.conn.pollable.isDetached then 1 else 0
  callback : s.conn.hasCloseCallback = true
  aborted : s.conn.isAborted = true → s.conn.isReset = true
  reset : s.conn.isReset = true →
    s.conn.isWriteEndShutdown = true ∧ s.conn.pollable.isDetached = true

/-- While the write end is open, at most one `::shutdown` is still going to fail, and none once
the connection is detached. -/
def FailsOnce (s : State κ ρ) : Prop :=
  s.conn.isWriteEndShutdown = false → failures s.kernel.shutdowns ≤ 1 ∧
    (s.conn.pollable.isDetached = true → failures s.kernel.shutdowns = 0)

def Calm (s : State κ ρ) : Prop := Notified s ∧ FailsOnce s

/-- A halt that is not one of those that are never reached. -/
def Orderly (e : Halt) (s : State κ ρ) : Prop :=
  e ≠ .logFatal "never reaches here" ∧ s.history.closeCallbackRuns ≤ 1

theorem Notified.le_one {s : State κ ρ} (h : Notified s) : s.history.closeCallbackRuns ≤ 1 := by
  rw [h.runs]
  split <;> omega

section Methods
variable {s : State κ ρ} {writeComplete : Comp κ ρ Unit}

/-- An attached connection can be aborted. -/
theorem wp_abort_calm {Q : Unit → State κ ρ → Prop} (hs : Calm s)
    (hd : s.conn.pollable.isDetached = false)
    (hQ : ∀ t, Calm t → t.conn.isWriteEndShutdown = true → Q () t) :
    wp abortFromEventLoop Q Orderly s := by
  have hs := hs.1
  have hreset : s.conn.isReset = false := by
    by_contra hr
    simpa [hd] using (hs.reset (by simpa using hr)).2
  have haborted : s.conn.isAborted = false := by
    by_contra ha
    simpa [hreset] using hs.aborted (by simpa using ha)
  have hruns : s.aborted.history.closeCallbackRuns = 1 := by
    simp [State.aborted, hs.runs, hd, hs.callback]
  apply abortFromEventLoop_rule
  · intro _ _
    refine hQ _ ⟨⟨?_, hs.callback, fun _ => rfl, fun _ => ⟨rfl, ?_⟩⟩, fun ho => ?_⟩ rfl
    · rw [hruns]
      simp [State.aborted]
    · exact PollableFileDescriptor.detachFromPoller_isDetached _
    · cases ho
  · intro h
    simp [haborted, hreset] at h
  · intro _ _ m t hm ht
    refine ⟨fun heq => ?_, Nat.le_of_eq (by rw [ht.1, hruns])⟩
    cases heq
    revert hm
    decide

theorem Calm.halt {e : Halt} (hs : Calm s) (he : e = .stackOverflow ∨ e = .nullPointer) :
    Orderly e s := by
  refine ⟨?_, hs.1.le_one⟩
  cases he with
  | inl h => simp [h]
  | inr h => simp [h]

theorem Calm.of_same {t : State κ ρ} (hs : Calm s)
    (hd : t.conn.pollable.isDetached = s.conn.pollable.isDetached)
    (hr : t.history.closeCallbackRuns = s.history.closeCallbackRuns)
    (hk : t.kernel.shutdowns = s.kernel.shutdowns)
    (hc : t.conn.hasCloseCallback = s.conn.hasCloseCallback)
    (ho : t.conn.isWriteEndShutdown = s.conn.isWriteEndShutdown)
    (hreset : t.conn.isReset = s.conn.isReset)
    (ha : t.conn.isAborted = s.conn.isAborted) : Calm t := by
  obtain ⟨hn, hf⟩ := hs
  refine ⟨⟨?_, ?_, ?_, ?_⟩, ?_⟩
  · rw [hr, hd]
    exact hn.runs
  · rw [hc]
    exact hn.callback
  · rw [ha, hreset]
    exact hn.aborted
  · rw [hreset, ho, hd]
    exact hn.reset
  · rw [FailsOnce, ho, hk, hd]
    exact hf

theorem send_calm (data : List UInt8) (hw : Keeps Calm Orderly writeComplete) :
    Keeps Calm Orderly (send writeComplete data) := by
  intro s hs
  have hrecord : Calm { s with history.calls := s.history.calls ++ [.send data] } :=
    hs.of_same rfl rfl rfl rfl rfl rfl rfl
  simp only [send, record, wp_bind, wp_modify, wp_get, wp_ite, wp_pure]
  split
  · exact hrecord
  · rename_i hd
    have hd : s.conn.pollable.isDetached = false := by simpa using hd
    split
    · exact wp_appendOutput (fun b _ => hs.of_same rfl rfl rfl rfl rfl rfl rfl)
        (hrecord.halt (.inr rfl))
    · apply sendAsManyData_rule
      · intro ks n _
        simp only [wp_ite, wp_bind, enableWriteEvent]
        split
        · exact hw _ (hs.of_same rfl rfl rfl rfl rfl rfl rfl)
        · refine wp_appendOutput (fun b _ => ?_) (Calm.halt (hs.of_same rfl rfl rfl rfl rfl rfl rfl)
            (.inr rfl))
          refine hs.of_same ?_ rfl rfl rfl rfl rfl rfl
          simp only [State.took, PollableFileDescriptor.enableWriteEvent_isDetached, hd]
      · intro ks n
        refine wp_abort_calm (hs.of_same rfl rfl rfl rfl rfl rfl rfl) hd fun t ht _ => ?_
        simp only [if_true]
        exact hw t ht

/-- The answer to one `::shutdown` is used up. -/
theorem Calm.answered {t : State κ ρ} (hs : Calm s)
    (ht : t = { s with
      kernel.shutdowns := s.kernel.shutdowns.tail
      history.calls := s.history.calls ++ [.shutdownWrite] }) : Calm t := by
  subst ht
  refine ⟨⟨hs.1.runs, hs.1.callback, hs.1.aborted, hs.1.reset⟩, fun ho => ?_⟩
  have h := hs.2 ho
  have htail := failures_tail s.kernel.shutdowns
  have hle : failures s.kernel.shutdowns.tail ≤ failures s.kernel.shutdowns := by omega
  exact ⟨Nat.le_trans hle h.1, fun hd => Nat.le_zero.mp (h.2 hd ▸ hle)⟩

theorem Calm.shut {t : State κ ρ} (hs : Calm s) (b : MutableSizeTcpBuffer)
    (ht : t = { s with
      conn.outputBuffer := b, conn.context := none, conn.isWriteEndShutdown := true }) :
    Calm t := by
  subst ht
  exact ⟨⟨hs.1.runs, hs.1.callback, hs.1.aborted, fun hr => ⟨rfl, (hs.1.reset hr).2⟩⟩,
    fun ho => by cases ho⟩

/-- The close event of an attached connection that needs no `::shutdown` that fails. -/
theorem closeEventCallback_calm (hs : Calm s) (hd : s.conn.pollable.isDetached = false)
    (hf : s.conn.isWriteEndShutdown = false → failures s.kernel.shutdowns = 0) :
    wp closeEventCallback (fun _ => Calm) Orderly s := by
  have hreset : s.conn.isReset = false := by
    by_contra hr
    simpa [hd] using (hs.1.reset (by simpa using hr)).2
  refine ⟨⟨?_, hs.1.callback, hs.1.aborted, fun hr => ?_⟩, fun ho => ?_⟩
  · simp [hs.1.runs, hs.1.callback, hd]
  · exact absurd (hreset.symm.trans hr) (by decide)
  · have := hf ho
    exact ⟨by simp only; omega, fun _ => this⟩

theorem shutdownWrite_calm (hw : Keeps Calm Orderly writeComplete) :
    Keeps Calm Orderly (shutdownWrite writeComplete) := by
  intro s hs
  have htail := failures_tail s.kernel.shutdowns
  have hanswered : Calm { s with
      kernel.shutdowns := s.kernel.shutdowns.tail
      history.calls := s.history.calls ++ [.shutdownWrite] } := hs.answered rfl
  have hfinish : ∀ t : State κ ρ, Calm t →
      wp (do
        disableWriteEvent
        writeComplete
        modify fun s => { s with
          conn.outputBuffer := s.conn.outputBuffer.release
          conn.context := none
          conn.isWriteEndShutdown := true }) (fun _ => Calm) Orderly t := by
    intro t ht
    have ht' : Calm { t with conn.pollable := t.conn.pollable.disableWriteEvent } :=
      ht.of_same (by simp) rfl rfl rfl rfl rfl rfl
    simp only [wp_bind, disableWriteEvent, wp_modify]
    exact wp_mono (hw _ ht') (fun _ u hu => hu.shut _ rfl) (fun _ _ => id)
  simp only [shutdownWrite, record, nextShutdown, wp_bind, wp_modify, wp_modifyGet, wp_get,
    wp_ite, wp_pure]
  split
  · exact hs.of_same rfl rfl rfl rfl rfl rfl rfl
  · rename_i ho
    have hfails := hs.2 (by simpa using ho)
    split
    · rename_i hanswer
      rw [hanswer] at htail
      have hd : s.conn.pollable.isDetached = false := by
        by_contra hd
        have := hfails.2 (by simpa using hd)
        simp at htail
        omega
      exact wp_abort_calm hanswered hd fun _ ht _ => ht
    · split
      · rename_i hanswer
        rw [if_neg hanswer] at htail
        have hd : s.conn.pollable.isDetached = false := by
          by_contra hd
          have := hfails.2 (by simpa using hd)
          omega
        exact wp_mono (closeEventCallback_calm hanswered hd fun _ => by simp only; omega)
          (fun _ t ht => hfinish t ht) (fun _ _ => id)
      · exact hfinish _ hanswered

theorem flushAndComplete_calm (hw : Keeps Calm Orderly writeComplete) (hs : Calm s)
    (hd : s.conn.pollable.isDetached = false) :
    wp (flushAndComplete writeComplete) (fun _ => Calm) Orderly s := by
  have hflush : wp flushOutput (fun _ => Calm) Orderly s := by
    refine flushOutput_rule ?_ ?_ fun _ => hs
    · intro ks n _
      exact hs.of_same rfl rfl rfl rfl rfl rfl rfl
    · intro ks n
      exact wp_abort_calm (hs.of_same rfl rfl rfl rfl rfl rfl rfl) hd
        fun t ht _ => ht.of_same rfl rfl rfl rfl rfl rfl rfl
  refine flushAndComplete_rule hflush (fun t ht => ?_) fun _ => id
  exact hw _ (ht.of_same (by simp) rfl rfl rfl rfl rfl rfl)

theorem kept_calm : Kept (κ := κ) (ρ := ρ) Calm Calm Orderly where
  halt _ _ hs he := hs.halt he
  count _ hs := hs.of_same rfl rfl rfl rfl rfl rfl rfl
  disableRead _ hs := hs.of_same (by simp) rfl rfl rfl rfl rfl rfl
  input _ _ hs := hs.of_same rfl rfl rfl rfl rfl rfl rfl
  send _ data hw := send_calm data hw
  shutdownWrite _ s _ hw _ hs := shutdownWrite_calm hw s hs
  flush _ _ hw hs hd _ := flushAndComplete_calm hw hs hd
  closure _ hs _ := hs
  finished _ hs _ := hs

/-- The write end is shut already, or at most one `::shutdown` of the dispatch fails, and none
when the close event is active. -/
def Benign (s : State κ ρ) (d : Dispatch) : Prop :=
  s.conn.isWriteEndShutdown = true ∨ failures d.kernel.shutdowns ≤ 1 ∧
    (has d.activeEvents eventTypeClose = true → failures d.kernel.shutdowns = 0)

theorem dispatch_calm (script : Nat → List Call) (depth : Nat) {d : Dispatch}
    (hs : Notified s) (hd : s.conn.pollable.isDetached = false) (hb : Benign s d) :
    wp (dispatchActiveEvents (runWriteComplete script depth) d.activeEvents d.recvs
        (userMessageCallback (runWriteComplete script depth) d.consumed d.calls))
      (fun _ => Calm) Orderly { s with kernel := d.kernel } := by
  have hw : Keeps Calm Orderly (runWriteComplete (κ := κ) (ρ := ρ) script depth) :=
    kept_calm.callback (fun _ => id) (fun _ _ _ => id) depth
  have hshut : ∀ {P : Prop}, s.conn.isWriteEndShutdown = true →
      s.conn.isWriteEndShutdown = false → P := fun h h' => absurd (h.symm.trans h') (by decide)
  have hcalm : Calm { s with kernel := d.kernel } := by
    refine ⟨⟨hs.runs, hs.callback, hs.aborted, hs.reset⟩, fun ho => ?_⟩
    obtain h | ⟨h, _⟩ := hb
    · exact hshut h ho
    · exact ⟨h, fun hd' => absurd (hd.symm.trans hd') (by decide)⟩
  apply kept_calm.dispatch hw hw (kept_calm.messageCallback hw hw d.consumed
    (fun (_ : .shutdownWrite ∈ d.calls) _ => id)) hcalm
  intro hclose
  refine closeEventCallback_calm hcalm hd fun ho => ?_
  obtain h | ⟨_, h⟩ := hb
  · exact hshut h ho
  · exact h hclose

end Methods

/-- Every notification is a functor that waits or the removal of the id, and the connections of
a server that runs on have notified it as often as they are detached. -/
structure Accounted (s : TcpServer κ ρ) : Prop where
  fresh : ∀ id, s.tcpConnectionIdCounter ≤ id → s.sockets id = none
  nodup : s.tcpConnectSocketfds.Nodup
  unknown : ∀ id, s.sockets id = none → id ∉ s.closeFunctors ∧ id ∉ s.tcpConnectSocketfds
  count : ∀ id c, s.sockets id = some c → c.history.closeCallbackRuns =
    s.closeFunctors.count id + if id ∈ s.tcpConnectSocketfds then 0 else 1
  once : ∀ id c, s.sockets id = some c → c.history.closeCallbackRuns ≤ 1
  notified : s.halted = none → ∀ id c, s.sockets id = some c → Notified c
  halted : s.halted ≠ some (.logFatal "never reaches here")

theorem accounted_new : Accounted (new : TcpServer κ ρ) where
  fresh _ _ := rfl
  nodup := List.nodup_nil
  unknown _ _ := by simp [new]
  count _ _ h := by cases h
  once _ _ h := by cases h
  notified _ _ _ h := by cases h
  halted := by simp [new]

theorem Accounted.registered {s : TcpServer κ ρ} (h : Accounted s) {id : Nat}
    (hid : id ∈ s.closeFunctors) : id ∈ s.tcpConnectSocketfds := by
  cases hc : s.sockets id with
  | none => exact absurd hid (h.unknown id hc).1
  | some c =>
    have hcount := h.count id c hc
    have honce := h.once id c hc
    have hpos := List.count_pos_iff.mpr hid
    by_contra hnot
    rw [if_neg hnot] at hcount
    omega

theorem notified_started (timeStamp : Int) (context : Option κ)
    (callback : Option WriteCompleteCallback) :
    Notified (started (ρ := ρ) timeStamp context callback) :=
  ⟨rfl, rfl, by simp [started, TcpConnectSocketfd.new, start],
    by simp [started, TcpConnectSocketfd.new, start]⟩

theorem Accounted.newConnectionCallback {s : TcpServer κ ρ} (h : Accounted s)
    (timeStamp : Int) (context : Option κ) (callback : Option WriteCompleteCallback) :
    Accounted (s.newConnectionCallback timeStamp context callback) := by
  have hnone := h.fresh s.tcpConnectionIdCounter (Nat.le_refl _)
  obtain ⟨hposted, hlisted⟩ := h.unknown _ hnone
  constructor
  · intro id hle
    have hne : id ≠ s.tcpConnectionIdCounter := by
      simp only [TcpServer.newConnectionCallback] at hle
      omega
    simp only [TcpServer.newConnectionCallback, if_neg hne] at hle ⊢
    exact h.fresh id (by omega)
  · exact List.nodup_cons.mpr ⟨hlisted, h.nodup⟩
  · intro id hid
    simp only [TcpServer.newConnectionCallback] at hid ⊢
    split at hid
    · cases hid
    · rename_i hne
      obtain ⟨hp, hl⟩ := h.unknown id hid
      exact ⟨hp, by simpa [hne] using hl⟩
  · intro id c hid
    simp only [TcpServer.newConnectionCallback] at hid ⊢
    split at hid
    · rename_i heq
      cases hid
      simp [heq, started, List.count_eq_zero_of_not_mem hposted]
    · rename_i hne
      simpa [hne] using h.count id c hid
  · intro id c hid
    simp only [TcpServer.newConnectionCallback] at hid
    split at hid
    · cases hid
      exact Nat.zero_le 1
    · exact h.once id c hid
  · intro hrun id c hid
    simp only [TcpServer.newConnectionCallback] at hid
    split at hid
    · cases hid
      exact notified_started timeStamp context callback
    · exact h.notified hrun id c hid
  · exact h.halted

theorem Accounted.afterDispatch {s : TcpServer κ ρ} (h : Accounted s) {id : Nat}
    {before after : State κ ρ} {halted : Option Halt} (hrun : s.halted = none)
    (hid : s.sockets id = some before) (hd : before.conn.pollable.isDetached = false)
    (honce : after.history.closeCallbackRuns ≤ 1)
    (hnotified : halted = none → Notified after)
    (hhalted : halted ≠ some (.logFatal "never reaches here")) :
    Accounted (s.afterDispatch id before after halted) := by
  have hzero : before.history.closeCallbackRuns = 0 := by
    rw [(h.notified hrun id before hid).runs, hd]
    rfl
  have hcount := h.count id before hid
  have hreg : id ∈ s.tcpConnectSocketfds := by
    by_contra hnot
    rw [hzero, if_neg hnot] at hcount
    omega
  rw [hzero, if_pos hreg] at hcount
  constructor
  · intro i hi
    have hne : i ≠ id := by
      intro heq
      rw [← heq, h.fresh i hi] at hid
      cases hid
    simpa [TcpServer.afterDispatch, hne] using h.fresh i hi
  · exact h.nodup
  · intro i hi
    simp only [TcpServer.afterDispatch] at hi ⊢
    split at hi
    · cases hi
    · rename_i hne
      obtain ⟨hp, hl⟩ := h.unknown i hi
      refine ⟨fun hmem => ?_, hl⟩
      cases List.mem_append.mp hmem with
      | inl hmem => exact hp hmem
      | inr hmem => exact hne (List.eq_of_mem_replicate hmem)
  · intro i c hi
    simp only [TcpServer.afterDispatch, List.count_append] at hi ⊢
    split at hi
    · rename_i heq
      cases hi
      simp only [heq, List.count_replicate_self, hzero, if_pos hreg]
      omega
    · rename_i hne
      rw [List.count_replicate, if_neg (by simpa using Ne.symm hne)]
      exact h.count i c hi
  · intro i c hi
    simp only [TcpServer.afterDispatch] at hi
    split at hi
    · cases hi
      exact honce
    · exact h.once i c hi
  · intro hrun' i c hi
    simp only [TcpServer.afterDispatch] at hrun' hi
    split at hi
    · cases hi
      exact hnotified hrun'
    · exact h.notified hrun i c hi
  · exact hhalted

theorem Accounted.runCloseFunctor {s : TcpServer κ ρ} (h : Accounted s) {id : Nat}
    (hid : id ∈ s.closeFunctors) : Accounted (s.runCloseFunctor id) := by
  have hreg := h.registered hid
  have hmem : ∀ i, i ∈ s.tcpConnectSocketfds.erase id ↔ i ≠ id ∧ i ∈ s.tcpConnectSocketfds :=
    fun i => h.nodup.mem_erase_iff
  simp only [TcpServer.runCloseFunctor, if_pos hreg]
  refine ⟨h.fresh, h.nodup.erase id, ?_, ?_, h.once, h.notified, h.halted⟩
  · intro i hi
    obtain ⟨hp, hl⟩ := h.unknown i hi
    exact ⟨fun hmem => hp (List.mem_of_mem_erase hmem), fun hmem => hl (List.mem_of_mem_erase hmem)⟩
  · intro i c hi
    have hcount := h.count i c hi
    by_cases heq : i = id
    · subst heq
      have hpos := List.count_pos_iff.mpr hid
      rw [if_pos hreg] at hcount
      simp only [hmem, List.count_erase_self, ne_eq, not_true_eq_false, false_and, if_false]
      omega
    · simp only [hmem, List.count_erase_of_ne heq, ne_eq, heq, not_false_eq_true, true_and]
      exact hcount

theorem Accounted.step {script : Nat → Nat → List Call} {depth : Nat} {s t : TcpServer κ ρ}
    (h : Accounted s) (hstep : Step script depth Benign s t) : Accounted t := by
  cases hstep with
  | accept timeStamp context callback hrun =>
    exact h.newConnectionCallback timeStamp context callback
  | close id hrun hid => exact h.runCloseFunctor hid
  | dispatch id before d hrun hid hattached hallowed =>
    have hn := h.notified hrun id before hid
    have hcalm := dispatch_calm (script id) depth hn hattached hallowed
    simp only [TcpServer.dispatch]
    split
    · rename_i after hafter
      have hcalm := (wp_of_ok hcalm hafter).1
      exact h.afterDispatch hrun hid hattached hcalm.le_one (fun _ => hcalm) (by simp)
    · rename_i e after hafter
      obtain ⟨he, honce⟩ := wp_of_error hcalm hafter
      exact h.afterDispatch hrun hid hattached honce (by simp) (by simpa using he)

/-- In every run whose dispatches are all benign, the close callback of each connection runs at
most once, each close functor finds its connection, and nothing that is said never to be reached
is reached. -/
theorem close_callback_once {script : Nat → Nat → List Call} {depth : Nat} {s : TcpServer κ ρ}
    (hr : Reaches (Step script depth Benign) new s) :
    (∀ id c, s.sockets id = some c → c.history.closeCallbackRuns ≤ 1) ∧
    (∀ id ∈ s.closeFunctors, id ∈ s.tcpConnectSocketfds) ∧
    s.halted ≠ some (.logFatal "never reaches here") := by
  have h : Accounted s := hr.invariant accounted_new fun _ _ => Accounted.step
  exact ⟨h.once, fun _ => h.registered, h.halted⟩

/-- A peer that resets the connection: the close event notifies the server. -/
theorem close_callback_once_of_reset :
    ∃ s : TcpServer Unit Unit, s.halted ≠ some (.logFatal "never reaches here") ∧
      s.closeFunctors = [0] ∧ ∀ id ∈ s.closeFunctors, id ∈ s.tcpConnectSocketfds := by
  have haccept : Step (fun _ _ => []) 1 Benign (new : TcpServer Unit Unit) _ :=
    .accept 0 (some ()) none rfl
  have hdispatch : Step (fun _ _ => []) 1 Benign _ _ :=
    .dispatch 0 _ ⟨epollIn ||| epollHup, [.error (.other 104)], ⟨[], [], []⟩, 0, []⟩
      (s := (new : TcpServer Unit Unit).newConnectionCallback 0 (some ()) none) rfl rfl rfl
      (.inr (by decide))
  have h := close_callback_once (.tail (.single haccept) hdispatch)
  exact ⟨_, h.2.2, by decide, h.2.1⟩

/-- A peer that resets the connection, where `recv` reports the end of the stream: the read event
goes on to `shutdown_write`, which finds the socket not connected and notifies the server
again. -/
theorem close_callback_runs_twice :
    ∃ s : TcpServer Unit Unit,
      Reaches (Step (fun _ _ => []) 1 fun _ _ => True) new s ∧
      (∃ c, s.sockets 0 = some c ∧ c.history.closeCallbackRuns = 2) ∧
      s.halted = some (.logFatal "never reaches here") := by
  have haccept : Step (fun _ _ => []) 1 (fun _ _ => True) (new : TcpServer Unit Unit) _ :=
    .accept 0 (some ()) none rfl
  have hdispatch : Step (fun _ _ => []) 1 (fun _ _ => True) _ _ :=
    .dispatch 0 _ ⟨epollIn ||| epollRdHup ||| epollHup, [.read []],
        ⟨[], [.error .ENOTCONN], []⟩, 0, []⟩
      (s := (new : TcpServer Unit Unit).newConnectionCallback 0 (some ()) none) rfl rfl rfl trivial
  refine ⟨_, .tail (.tail (.tail (.single haccept) hdispatch) (.close 0 rfl ?_)) (.close 0 rfl ?_),
    ⟨_, rfl, ?_⟩, ?_⟩
  · decide
  · decide
  · decide
  · decide

end XubinhServer.TcpServer

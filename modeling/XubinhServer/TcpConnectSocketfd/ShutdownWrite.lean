import XubinhServer.TcpConnectSocketfd.Runs

/-! When `shutdown_write` returns: it calls the write-complete callback before it records that
the write end is shut, so a callback that gets back to it is invoked again. -/
namespace XubinhServer.TcpConnectSocketfd

open Halting

variable {κ ρ : Type} {script : Nat → List Call} {depth : Nat} {s : State κ ρ}

/-- Whether the answers let the loop of `_send_as_many_data` report all of the `length` bytes
as sent, from `sent` on. -/
def completes (length : Nat) : List SendResult → (sent : Nat) → Bool
  | [], _ => true
  | answer :: rest, sent =>
    if sent < length then
      match answer with
      | .accepted count => completes length rest (min (sent + count) length)
      | .error .EAGAIN | .error .EWOULDBLOCK => false
      | .error .EPIPE => true
      | .error _ => completes length rest sent
    else true

/-- The calls that a callback can make, from a connection whose write end is open, without
getting back to itself: only `send`, and a first one that cannot finish at once. -/
def Quiet (s : State κ ρ) (calls : List Call) : Prop :=
  .shutdownWrite ∉ calls ∧
  (s.conn.pollable.isDetached = false → s.conn.pollable.isWriting = false →
    ∀ data, calls.head? = some (.send data) → completes data.length s.kernel.sends 0 = false)

theorem sendLoop_completes (data : List UInt8) (sends : List SendResult) (sent : Nat)
    (hsent : sent ≤ data.length) :
    wp (sendLoop data sends sent) (fun n _ => n = data.length ↔ completes data.length sends sent)
      (fun _ _ => completes data.length sends sent = true) s := by
  induction sends generalizing s sent with
  | nil => simp only [sendLoop, accept, wp_bind, wp_modify, wp_pure, completes]
  | cons answer rest ih =>
    simp only [sendLoop, wp_ite, wp_bind, wp_modify, completes]
    split
    · cases answer with
      | accepted count => exact ih _ (Nat.min_le_right _ _)
      | error errno =>
        cases errno with
        | EAGAIN => simp; omega
        | EWOULDBLOCK => simp; omega
        | EPIPE =>
          simp only [wp_bind]
          exact wp_mono (wp_true _ _) (by simp) (by simp)
        | ENOTCONN => exact ih sent hsent
        | other code => exact ih sent hsent
    · simp; omega

theorem sendAsManyData_completes (data : List UInt8) :
    wp (sendAsManyData data)
      (fun n _ => n = data.length ↔ completes data.length s.kernel.sends 0)
      (fun _ _ => completes data.length s.kernel.sends 0 = true) s := by
  simp only [sendAsManyData, wp_ite, wp_bind, wp_get, wp_pure]
  split
  · rename_i h0
    rw [h0]
    cases s.kernel.sends <;> simp [completes]
  · exact sendLoop_completes data s.kernel.sends 0 (Nat.zero_le _)

/-- What the calls ahead do not depend on while they are only collected. -/
theorem sendAsManyData_of_incomplete {data : List UInt8}
    (h : completes data.length s.kernel.sends 0 = false) :
    wp (sendAsManyData data) (fun n t => n ≠ data.length ∧ ∃ ks taken, t = s.took ks taken)
      (fun _ _ => False) s := by
  have htook : wp (sendAsManyData data)
      (fun n t => n = data.length ∨ ∃ ks taken, t = s.took ks taken) (fun _ _ => True) s :=
    sendAsManyData_rule (fun ks n _ => .inr ⟨ks, _, rfl⟩)
      (fun _ _ => wp_mono (wp_true _ _) (fun _ _ _ => .inl rfl) (fun _ _ => id))
  apply wp_mono (wp_and (sendAsManyData_completes data) htook)
  · intro n t hn
    rw [h] at hn
    obtain ⟨hall, htook⟩ := hn
    exact ⟨fun heq => absurd (hall.mp heq) (by decide),
      htook.resolve_left fun heq => absurd (hall.mp heq) (by decide)⟩
  · intro _ _ he
    rw [h] at he
    exact absurd he.1 (by decide)

section Nested
variable {writeComplete : Comp κ ρ Unit}

/-- `::shutdown` succeeds. -/
def Succeeds (s : State κ ρ) : Prop := ∀ answer ∈ s.kernel.shutdowns, answer = .success

/-- Where `shutdown_write` invokes the callback. -/
def beforeCallback (s : State κ ρ) : State κ ρ where
  conn := { s.conn with pollable := s.conn.pollable.disableWriteEvent }
  kernel := { s.kernel with shutdowns := s.kernel.shutdowns.tail }
  history := { s.history with calls := s.history.calls ++ [.shutdownWrite] }

/-- What `shutdown_write` does behind the callback. -/
def afterCallback (s : State κ ρ) : State κ ρ :=
  { s with
    conn.outputBuffer := s.conn.outputBuffer.release
    conn.context := none
    conn.isWriteEndShutdown := true }

theorem wp_shutdownWrite {Q : Unit → State κ ρ → Prop} {E : Halt → State κ ρ → Prop}
    (hopen : s.conn.isWriteEndShutdown = false) (hsucceeds : Succeeds s) :
    wp (shutdownWrite writeComplete) Q E s =
      wp writeComplete (fun _ t => Q () (afterCallback t)) E (beforeCallback s) := by
  have hanswer : s.kernel.shutdowns.headD .success = .success := by
    cases hlist : s.kernel.shutdowns with
    | nil => rfl
    | cons answer rest => exact hsucceeds answer (by rw [hlist]; exact List.mem_cons_self)
  simp only [shutdownWrite, record, nextShutdown, disableWriteEvent, wp_bind, wp_modify,
    wp_modifyGet, wp_get, wp_ite, hanswer]
  rw [if_neg (by simp [hopen]), if_neg (by simp), if_neg (by simp)]
  rfl

/-- At least `m` invocations so far, and `callback` is registered. -/
def Invoked (m : Nat) (callback : Option WriteCompleteCallback) (s : State κ ρ) : Prop :=
  m ≤ s.history.writeCompleteRuns ∧ s.conn.writeCompleteCallback = callback

variable {m : Nat} {callback : Option WriteCompleteCallback}

theorem stable_invoked : Stable (κ := κ) (ρ := ρ) (Invoked m callback) where
  count _ hs := ⟨Nat.le_succ_of_le hs.1, hs.2⟩
  record _ _ hs := hs
  took _ _ _ hs := hs
  answered _ _ hs := hs
  pollable _ _ _ _ hs := hs
  input _ _ hs := hs
  output _ _ _ hs := hs
  closed _ _ hs := hs
  aborted _ hs := hs

theorem kept_invoked : Kept (κ := κ) (ρ := ρ) (Invoked m callback) (Invoked m callback)
    (fun e _ => ConnectionHalt e) :=
  stable_invoked.kept_of_shut (fun _ _ => id) fun _ _ hs => hs

theorem callback_invoked :
    Keeps (Invoked m callback) (fun e _ => ConnectionHalt e)
      (runWriteComplete (κ := κ) (ρ := ρ) script depth) :=
  kept_invoked.callback (fun _ => id) (fun _ _ _ => id) depth

/-- A registered callback that returns has been counted. -/
theorem runWriteComplete_invoked (hs : Invoked m callback s) (hc : callback ≠ none) :
    wp (runWriteComplete script depth) (fun _ => Invoked (m + 1) callback)
      (fun e _ => ConnectionHalt e) s := by
  have hcallback : s.conn.writeCompleteCallback ≠ none := hs.2 ▸ hc
  cases depth with
  | zero => simp [runWriteComplete, hcallback, ConnectionHalt]
  | succ depth =>
    have hcount : Invoked (m + 1) callback
        { s with history.writeCompleteRuns := s.history.writeCompleteRuns + 1 } :=
      ⟨Nat.succ_le_succ hs.1, hs.2⟩
    have hnested := @callback_invoked κ ρ script depth (m + 1) callback
    simp only [runWriteComplete, wp_bind, wp_get]
    cases hcb : s.conn.writeCompleteCallback with
    | none => exact absurd hcb hcallback
    | some registered =>
      cases registered with
      | user => exact kept_invoked.calls hnested hnested (fun _ _ => id) _ hcount
      | shutdownWrite => exact kept_invoked.shutdownWrite _ _ hnested hnested hcount hcount

/-- A nested `shutdown_write` that returns has invoked the callback once more. -/
theorem shutdownWrite_invoked (hs : Invoked m callback s) (hc : callback ≠ none)
    (hopen : s.conn.isWriteEndShutdown = false) (hsucceeds : Succeeds s) :
    wp (shutdownWrite (runWriteComplete script depth)) (fun _ => Invoked (m + 1) callback)
      (fun e _ => ConnectionHalt e) s := by
  rw [wp_shutdownWrite hopen hsucceeds]
  exact runWriteComplete_invoked (s := beforeCallback s) hs hc

theorem sendAsManyData_invoked (data : List UInt8) (hs : Invoked m callback s) :
    wp (sendAsManyData data)
      (fun n t => (n = data.length ↔ completes data.length s.kernel.sends 0) ∧
        Invoked m callback t ∧ (n ≠ data.length → ∃ ks taken, t = s.took ks taken))
      (fun e _ => ConnectionHalt e) s := by
  have htook : wp (sendAsManyData data)
      (fun n t => n ≠ data.length → ∃ ks taken, t = s.took ks taken) (fun _ _ => True) s :=
    sendAsManyData_rule (fun ks n _ _ => ⟨ks, _, rfl⟩)
      (fun _ _ => wp_mono (wp_true _ _) (fun _ _ _ h => absurd rfl h) (fun _ _ => id))
  exact wp_mono
    (wp_and (sendAsManyData_completes data)
      (wp_and (stable_invoked.wp_sendAsManyData (fun _ _ => id) hs) htook))
    (fun _ _ => id) (fun _ _ he => he.2.1)

/-- A `send` either completes, and has invoked the callback once more, or leaves the write
end as it was. -/
theorem send_invoked {data : List UInt8} (hs : Invoked m (some .user) s)
    (hopen : s.conn.isWriteEndShutdown = false) (hsucceeds : Succeeds s) :
    wp (send (runWriteComplete script depth) data)
      (fun _ t => Invoked (m + 1) (some .user) t ∨
        (s.conn.pollable.isDetached = false → s.conn.pollable.isWriting = false →
          completes data.length s.kernel.sends 0 = false) ∧
        Invoked m (some .user) t ∧ t.conn.isWriteEndShutdown = false ∧ Succeeds t)
      (fun e _ => ConnectionHalt e) s := by
  simp only [send, record, wp_bind, wp_modify, wp_get, wp_ite, wp_pure]
  split
  · rename_i hd
    exact .inr ⟨fun hd' => absurd (hd.symm.trans hd') (by decide), hs, hopen, hsucceeds⟩
  · split
    · rename_i hw
      refine wp_appendOutput (fun b _ => ?_) (.inr (.inl rfl))
      exact .inr ⟨fun _ hw' => absurd (hw.symm.trans hw') (by decide), hs, hopen, hsucceeds⟩
    · have hsent := sendAsManyData_invoked (s := { s with
        history.calls := s.history.calls ++ [.send data] }) data hs
      apply wp_mono hsent _ (fun _ _ => id)
      intro n t ht
      obtain ⟨hall, ht, htook⟩ := ht
      simp only [wp_ite, wp_bind, enableWriteEvent]
      split
      · exact wp_mono (runWriteComplete_invoked ht (by simp)) (fun _ _ => .inl) (fun _ _ => id)
      · rename_i hpartial
        have hincomplete : completes data.length s.kernel.sends 0 = false := by
          simpa using fun hc => hpartial (hall.mpr hc)
        obtain ⟨ks, taken, rfl⟩ := htook hpartial
        exact wp_appendOutput (fun b _ => .inr ⟨fun _ _ => hincomplete, hs, hopen, hsucceeds⟩)
          (.inr (.inl rfl))

/-- A callback that is not quiet gets back to itself. -/
theorem runCalls_invoked {calls : List Call} (hs : Invoked m (some .user) s)
    (hopen : s.conn.isWriteEndShutdown = false) (hsucceeds : Succeeds s)
    (hloud : ¬Quiet s calls) :
    wp (runCalls (runWriteComplete script depth) calls)
      (fun _ => Invoked (m + 1) (some .user)) (fun e _ => ConnectionHalt e) s := by
  have hnested := @callback_invoked κ ρ script depth (m + 1) (some .user)
  have hcalls := fun calls : List Call =>
    kept_invoked.calls hnested hnested fun (_ : .shutdownWrite ∈ calls) _ => id
  induction calls generalizing s with
  | nil => exact absurd ⟨by simp, by simp⟩ hloud
  | cons call rest ih =>
    cases call with
    | shutdownWrite =>
      exact wp_seq (f := fun _ => runCalls _ rest)
        (shutdownWrite_invoked hs (by simp) hopen hsucceeds) fun _ => hcalls rest
    | send data =>
      refine wp_seq (f := fun _ => runCalls _ rest) (send_invoked hs hopen hsucceeds)
        fun _ t ht => ?_
      cases ht with
      | inl hmore => exact hcalls rest t hmore
      | inr hsame =>
        obtain ⟨hincomplete, hs, hopen, hsucceeds⟩ := hsame
        refine ih hs hopen hsucceeds fun hquiet => hloud ⟨by simpa using hquiet.1, ?_⟩
        intro hd hw data' hdata
        cases hdata
        exact hincomplete hd hw

theorem runCalls_quiet {calls : List Call} (hvalid : s.conn.outputBuffer.Valid)
    (hquiet : Quiet s calls) :
    wp (runCalls writeComplete calls)
      (fun _ t => t.history.writeCompleteRuns = s.history.writeCompleteRuns)
      (fun _ _ => False) s := by
  induction calls generalizing s with
  | nil => exact rfl
  | cons call rest ih =>
    cases call with
    | shutdownWrite => exact absurd List.mem_cons_self hquiet.1
    | send data =>
      have hrest : .shutdownWrite ∉ rest := fun hmem => hquiet.1 (List.mem_cons_of_mem _ hmem)
      have hsend : wp (send writeComplete data) (fun _ t =>
          t.conn.outputBuffer.Valid ∧ Quiet t rest ∧
          t.history.writeCompleteRuns = s.history.writeCompleteRuns) (fun _ _ => False) s := by
        simp only [send, record, wp_bind, wp_modify, wp_get, wp_ite, wp_pure]
        split
        · rename_i hd
          exact ⟨hvalid, ⟨hrest, fun hd' => absurd (hd.symm.trans hd') (by decide)⟩, trivial⟩
        · rename_i hd
          split
          · rename_i hw
            obtain ⟨b, hb, hbvalid, _⟩ := MutableSizeTcpBuffer.append_spec hvalid data
            simp only [appendOutput, wp_bind, wp_get, hb, wp_liftPure, ends, wp_modify]
            exact ⟨hbvalid, ⟨hrest, fun _ hw' => absurd (hw.symm.trans hw') (by decide)⟩, trivial⟩
          · rename_i hw
            have hincomplete := hquiet.2 (by simpa using hd) (by simpa using hw) data rfl
            apply wp_mono (sendAsManyData_of_incomplete (s := { s with
              history.calls := s.history.calls ++ [.send data] }) hincomplete) _ (fun _ _ => id)
            intro n t h
            obtain ⟨hn, ks, taken, rfl⟩ := h
            obtain ⟨b, hb, hbvalid, _⟩ :=
              MutableSizeTcpBuffer.append_spec hvalid (data.drop n)
            simp only [if_neg hn, State.took, appendOutput, wp_bind, wp_get, hb,
              wp_liftPure, ends, wp_modify, enableWriteEvent]
            exact ⟨hbvalid, ⟨hrest, fun _ hw' => by simp at hw'⟩, trivial⟩
      refine wp_seq (f := fun _ => runCalls _ rest) hsend fun _ t ht => ?_
      obtain ⟨htvalid, htquiet, htruns⟩ := ht
      rw [← htruns]
      exact ih htvalid htquiet

end Nested

/-- An open write end and a callback that is not quiet: two invocations before the end. -/
theorem shutdownWrite_twice (hopen : s.conn.isWriteEndShutdown = false) (hsucceeds : Succeeds s)
    (hcallback : s.conn.writeCompleteCallback ≠ none)
    (hloud : ¬(s.conn.writeCompleteCallback = some .user ∧
      Quiet (beforeCallback s) (script s.history.writeCompleteRuns))) :
    wp (shutdownWrite (runWriteComplete script depth))
      (fun _ t => s.history.writeCompleteRuns + 2 ≤ t.history.writeCompleteRuns)
      (fun e _ => ConnectionHalt e) s := by
  have hlater : Succeeds (beforeCallback s) :=
    fun answer hmem => hsucceeds answer (List.mem_of_mem_tail hmem)
  rw [wp_shutdownWrite hopen hsucceeds]
  cases depth with
  | zero => simp [runWriteComplete, beforeCallback, hcallback, ConnectionHalt]
  | succ depth =>
    let t : State κ ρ := { beforeCallback s with
      history.writeCompleteRuns := s.history.writeCompleteRuns + 1 }
    simp only [runWriteComplete, wp_bind, wp_get]
    cases hcb : s.conn.writeCompleteCallback with
    | none => exact absurd hcb hcallback
    | some callback =>
      have hcb' : (beforeCallback s).conn.writeCompleteCallback = some callback := hcb
      have ht : Invoked (s.history.writeCompleteRuns + 1) (some callback) t :=
        ⟨Nat.le_refl _, hcb⟩
      simp only [hcb', wp_bind, wp_get, wp_modify]
      cases callback with
      | user =>
        have hquiet : ¬Quiet t (script s.history.writeCompleteRuns) :=
          fun hquiet => hloud ⟨hcb, hquiet⟩
        exact wp_mono (runCalls_invoked ht hopen hlater hquiet) (fun _ _ hu => hu.1)
          (fun _ _ => id)
      | shutdownWrite =>
        exact wp_mono (shutdownWrite_invoked ht (by simp) hopen hlater) (fun _ _ hu => hu.1)
          (fun _ _ => id)

/-- A quiet callback is invoked once. -/
theorem shutdownWrite_once (hopen : s.conn.isWriteEndShutdown = false) (hsucceeds : Succeeds s)
    (hvalid : OutputValid s) (hcallback : s.conn.writeCompleteCallback = some .user)
    (hquiet : Quiet (beforeCallback s) (script s.history.writeCompleteRuns)) :
    wp (shutdownWrite (runWriteComplete script 1))
      (fun _ t => t.history.writeCompleteRuns = s.history.writeCompleteRuns + 1)
      (fun _ _ => False) s := by
  let t : State κ ρ := { beforeCallback s with
    history.writeCompleteRuns := s.history.writeCompleteRuns + 1 }
  have hcb : (beforeCallback s).conn.writeCompleteCallback = some .user := hcallback
  have ht : Quiet t (script s.history.writeCompleteRuns) := hquiet
  rw [wp_shutdownWrite hopen hsucceeds]
  simp only [runWriteComplete, wp_bind, wp_get, hcb, wp_modify]
  exact runCalls_quiet (hvalid hopen) ht

/-- The closure that calls `shutdown_write` uses up the call stack, however large it is. -/
theorem closure_overflows (hopen : s.conn.isWriteEndShutdown = false) (hsucceeds : Succeeds s)
    (hcallback : s.conn.writeCompleteCallback = some .shutdownWrite) :
    wp (shutdownWrite (runWriteComplete script depth)) (fun _ _ => False)
      (fun e _ => e = .stackOverflow) s := by
  induction depth generalizing s with
  | zero =>
    rw [wp_shutdownWrite hopen hsucceeds]
    simp [runWriteComplete, beforeCallback, hcallback]
  | succ depth ih =>
    have hcb : (beforeCallback s).conn.writeCompleteCallback = some .shutdownWrite := hcallback
    have hlater : Succeeds (beforeCallback s) :=
      fun answer hmem => hsucceeds answer (List.mem_of_mem_tail hmem)
    rw [wp_shutdownWrite hopen hsucceeds]
    simp only [runWriteComplete, wp_bind, wp_get, hcb, wp_modify]
    exact wp_mono (ih (s := { beforeCallback s with history.writeCompleteRuns :=
      (beforeCallback s).history.writeCompleteRuns + 1 }) hopen hlater hcallback)
      (fun _ _ => False.elim) (fun _ _ => id)

/-- With `::shutdown` succeeding, a call of `shutdown_write` returns after at most one
invocation of the write-complete callback exactly when the write end is already shut, no
callback is registered, or the callback's own calls do not get back to it. Every reachable
state meets `OutputValid`. -/
theorem shutdownWrite_returns_iff (script : Nat → List Call) (s : State κ ρ)
    (hvalid : OutputValid s) (hsucceeds : Succeeds s) :
    (∃ depth t, shutdownWrite (runWriteComplete script depth) s = .ok () t ∧
      t.history.writeCompleteRuns ≤ s.history.writeCompleteRuns + 1) ↔
    s.conn.isWriteEndShutdown = true ∨ s.conn.writeCompleteCallback = none ∨
    s.conn.writeCompleteCallback = some .user ∧
      Quiet (beforeCallback s) (script s.history.writeCompleteRuns) := by
  constructor
  · intro hboth
    obtain ⟨depth, t, hrun, hruns⟩ := hboth
    by_contra hcontra
    obtain ⟨hopen, hcallback, hloud⟩ : s.conn.isWriteEndShutdown = false ∧
        s.conn.writeCompleteCallback ≠ none ∧ ¬(s.conn.writeCompleteCallback = some .user ∧
          Quiet (beforeCallback s) (script s.history.writeCompleteRuns)) := by
      simpa using hcontra
    have := wp_of_ok (shutdownWrite_twice hopen hsucceeds hcallback hloud) hrun
    omega
  · intro h
    suffices hwp : wp (shutdownWrite (runWriteComplete script 1))
        (fun _ t => t.history.writeCompleteRuns ≤ s.history.writeCompleteRuns + 1)
        (fun _ _ => False) s by
      obtain ⟨_, t, hrun, hruns⟩ := ok_of_wp hwp
      exact ⟨1, t, hrun, hruns⟩
    cases ho : s.conn.isWriteEndShutdown with
    | true => simp [shutdownWrite, record, ho]
    | false =>
      obtain hshut | hnone | ⟨hcallback, hquiet⟩ := h
      · rw [ho] at hshut
        cases hshut
      · rw [wp_shutdownWrite ho hsucceeds]
        simp [runWriteComplete, beforeCallback, afterCallback, hnone]
      · exact wp_mono (shutdownWrite_once ho hsucceeds hvalid hcallback hquiet)
          (fun _ _ ht => Nat.le_of_eq ht) (fun _ _ => id)

/-- The callback sends, and the kernel is full. -/
theorem shutdownWrite_returns_of_full_kernel :
    ∃ depth t, shutdownWrite (runWriteComplete (fun _ => [.send (bytes "bye")]) depth)
      ({ started 0 (some ()) (some .user) with kernel.sends := [.error .EAGAIN] } :
        State Unit Unit) = .ok () t ∧ t.history.writeCompleteRuns ≤ 1 := by
  refine (shutdownWrite_returns_iff (fun _ => [.send (bytes "bye")]) _
    (fun _ => MutableSizeTcpBuffer.valid_new) (by simp [Succeeds, started])).mpr
    (.inr (.inr ⟨rfl, by decide, fun _ _ data hdata => ?_⟩))
  cases hdata
  decide

/-- The callback that is registered for `Connection: close` on a connection that is open: the
call does not return. -/
theorem shutdownWrite_overflows :
    ¬∃ depth t, shutdownWrite (runWriteComplete (fun _ => []) depth)
      (started 0 (some ()) (some .shutdownWrite) : State Unit Unit) = .ok () t := by
  intro h
  obtain ⟨depth, t, hrun⟩ := h
  have hsucceeds : Succeeds (started 0 (some ()) (some .shutdownWrite) : State Unit Unit) := by
    simp [Succeeds, started]
  exact wp_of_ok (closure_overflows rfl hsucceeds rfl) hrun

end XubinhServer.TcpConnectSocketfd

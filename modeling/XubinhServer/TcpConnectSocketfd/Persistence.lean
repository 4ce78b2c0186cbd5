import XubinhServer.Lib.Loop
import XubinhServer.TcpConnectSocketfd.Runs

/-! The loops of `_receive_all_data` and `_send_as_many_data` on a kernel that never runs out of
answers: which answers they leave on, and which they can meet for ever. -/
namespace XubinhServer.TcpConnectSocketfd

open Halting Loop

variable {κ ρ : Type}

/-- A round of `_receive_all_data`, after `calls` calls of `::recv` and `total` bytes. -/
def receiveRound (recv : Nat → RecvResult) :
    Nat × Nat → Comp κ ρ ((Nat × Nat) ⊕ Nat)
  | (calls, total) =>
    match recv calls with
    | .read data => do
      if data.length > 0 then
        appendInput data
        pure (.inl (calls + 1, total + data.length))
      else
        disableReadEvent
        pure (.inr total)
    | .error .EAGAIN | .error .EWOULDBLOCK => pure (.inr total)
    | .error _ => do
      errorEventCallback
      pure (.inl (calls + 1, total))

/-- A round of `_send_as_many_data`, after `calls` calls of `::send` and `sent` bytes. -/
def sendRound (data : List UInt8) (send : Nat → SendResult) :
    Nat × Nat → Comp κ ρ ((Nat × Nat) ⊕ Nat)
  | (calls, sent) => do
    if sent < data.length then
      modify fun s => { s with kernel.sends := s.kernel.sends.tail }
      match send calls with
      | .accepted count =>
        accept ((data.drop sent).take count)
        pure (.inl (calls + 1, min (sent + count) data.length))
      | .error .EAGAIN | .error .EWOULDBLOCK => pure (.inr sent)
      | .error .EPIPE =>
        abortFromEventLoop
        pure (.inr data.length)
      | .error _ =>
        errorEventCallback
        pure (.inl (calls + 1, sent))
    else pure (.inr sent)

/-- `_receive_all_data` in a bounded number of rounds. -/
def receiveAllDataFrom (recv : Nat → RecvResult) (rounds : Nat) (s : State κ ρ) :
    Option (EStateM.Result Halt (State κ ρ) Nat) :=
  run (round (receiveRound recv)) rounds ((0, 0), s)

/-- `_send_as_many_data` in a bounded number of rounds. -/
def sendAsManyDataFrom (data : List UInt8) (send : Nat → SendResult) (rounds : Nat)
    (s : State κ ρ) : Option (EStateM.Result Halt (State κ ρ) Nat) :=
  if data.length = 0 then some (.ok 0 s)
  else run (round (sendRound data send)) rounds ((0, 0), s)

/-- The list of answers, and then `EAGAIN`. -/
theorem run_receiveRound {recv : Nat → RecvResult} {recvs : List RecvResult} {calls : Nat}
    (hrecv : ∀ i, recv (calls + i) = recvs.getD i (.error .EAGAIN)) (total : Nat)
    (s : State κ ρ) :
    run (round (receiveRound recv)) (recvs.length + 1) ((calls, total), s) =
      some (receiveLoop recvs total s) := by
  induction recvs generalizing calls total s with
  | nil =>
    have hanswer : recv calls = .error .EAGAIN := hrecv 0
    refine run_leaves (round_leaves ?_)
    rw [receiveRound, hanswer]
    rfl
  | cons answer rest ih =>
    have hanswer : recv calls = answer := hrecv 0
    have hrest : ∀ i, recv (calls + 1 + i) = rest.getD i (.error .EAGAIN) := by
      intro i
      have hnext := hrecv (i + 1)
      rwa [List.getD_cons_succ, ← Nat.add_assoc, Nat.add_right_comm] at hnext
    have hgoes : ∀ total' t,
        receiveRound (κ := κ) (ρ := ρ) recv (calls, total) s = .ok (.inl (calls + 1, total')) t →
        run (round (receiveRound recv)) ((answer :: rest).length + 1) ((calls, total), s) =
          some (receiveLoop rest total' t) :=
      fun total' t hround => (run_goes_on (round_goes_on hround)).trans (ih hrest total' t)
    cases answer with
    | read data =>
      by_cases hdata : data.length > 0
      · cases happend : appendInput (κ := κ) (ρ := ρ) data s with
        | ok _ t =>
          rw [hgoes (total + data.length) t, receiveLoop, if_pos hdata, bind_of_ok happend]
          simp only [receiveRound, hanswer, if_pos hdata]
          exact bind_of_ok happend
        | error e t =>
          have hround : receiveRound recv (calls, total) s = .error e t := by
            simp only [receiveRound, hanswer, if_pos hdata]
            exact bind_of_error happend
          rw [run_leaves (round_stops hround), receiveLoop, if_pos hdata, bind_of_error happend]
      · have hround : receiveRound recv (calls, total) s = .ok (.inr total)
            { s with conn.pollable := s.conn.pollable.disableReadEvent } := by
          simp only [receiveRound, hanswer, if_neg hdata]
          rfl
        rw [run_leaves (round_leaves hround), receiveLoop, if_neg hdata]
        rfl
    | error errno =>
      have hleaves : receiveRound (κ := κ) (ρ := ρ) recv (calls, total) s = .ok (.inr total) s →
          run (round (receiveRound recv)) (rest.length + 2) ((calls, total), s) =
            some (.ok total s) := fun hround => run_leaves (round_leaves hround)
      cases errno with
      | EAGAIN => exact hleaves (by simp only [receiveRound, hanswer]; rfl)
      | EWOULDBLOCK => exact hleaves (by simp only [receiveRound, hanswer]; rfl)
      | EPIPE => exact hgoes total s (by simp only [receiveRound, hanswer]; rfl)
      | ENOTCONN => exact hgoes total s (by simp only [receiveRound, hanswer]; rfl)
      | other code => exact hgoes total s (by simp only [receiveRound, hanswer]; rfl)

/-- A list of answers is a kernel that answers `EAGAIN` behind it. -/
theorem receiveAllDataFrom_eq (recvs : List RecvResult) (s : State κ ρ) :
    receiveAllDataFrom (fun i => recvs.getD i (.error .EAGAIN)) (recvs.length + 1) s =
      some (receiveAllData recvs s) :=
  run_receiveRound (fun i => by rw [Nat.zero_add]) 0 s

/-- Behind the list the kernel accepts whatever there is left. -/
theorem run_sendRound_nil {data : List UInt8} {send : Nat → SendResult} {calls sent : Nat}
    {s : State κ ρ} (hanswer : send calls = .accepted data.length) (hs : s.kernel.sends = [])
    (hsent : sent ≤ data.length) :
    run (round (sendRound data send)) 2 ((calls, sent), s) = some (sendLoop data [] sent s) := by
  obtain ⟨conn, ⟨sends, shutdowns, resets⟩, history⟩ := s
  cases hs
  by_cases hlt : sent < data.length
  · have hmin : min (sent + data.length) data.length = data.length :=
      Nat.min_eq_right (Nat.le_add_left _ _)
    have htake : (data.drop sent).take data.length = data.drop sent :=
      List.take_of_length_le (by rw [List.length_drop]; omega)
    have hround : sendRound data send (calls, sent) ⟨conn, ⟨[], shutdowns, resets⟩, history⟩ =
        .ok (.inl (calls + 1, data.length)) (State.took (κ := κ) (ρ := ρ)
          ⟨conn, ⟨[], shutdowns, resets⟩, history⟩ [] (data.drop sent)) := by
      simp only [sendRound, if_pos hlt, hanswer, hmin, htake]
      rfl
    rw [run_goes_on (round_goes_on hround)]
    refine run_leaves (round_leaves ?_)
    simp only [sendRound, if_neg (Nat.lt_irrefl _)]
    rfl
  · have hall : sent = data.length := Nat.le_antisymm hsent (Nat.not_lt.mp hlt)
    have hnothing : data.drop sent = [] := List.drop_eq_nil_iff.mpr (Nat.le_of_eq hall.symm)
    have hsame : State.took (κ := κ) (ρ := ρ) ⟨conn, ⟨[], shutdowns, resets⟩, history⟩ []
        (data.drop sent) = ⟨conn, ⟨[], shutdowns, resets⟩, history⟩ := by
      rw [hnothing, State.took_nil]
    refine run_leaves (round_leaves ?_)
    simp only [sendRound, if_neg hlt]
    rw [hall] at hsame ⊢
    exact congrArg (EStateM.Result.ok (Sum.inr data.length)) hsame.symm

/-- The list of answers, and then whatever there is left to accept. -/
theorem run_sendRound {data : List UInt8} {send : Nat → SendResult} {sends : List SendResult}
    {calls sent : Nat} {s : State κ ρ}
    (hsend : ∀ i, send (calls + i) = sends.getD i (.accepted data.length))
    (hs : s.kernel.sends = sends) (hsent : sent ≤ data.length) :
    run (round (sendRound data send)) (sends.length + 2) ((calls, sent), s) =
      some (sendLoop data sends sent s) := by
  obtain ⟨conn, ⟨sends', shutdowns, resets⟩, history⟩ := s
  simp only at hs
  subst hs
  induction sends' generalizing calls sent conn history with
  | nil => exact run_sendRound_nil (hsend 0) rfl hsent
  | cons answer rest ih =>
    have hanswer : send calls = answer := hsend 0
    have hrest : ∀ i, send (calls + 1 + i) = rest.getD i (.accepted data.length) := by
      intro i
      have hnext := hsend (i + 1)
      rwa [List.getD_cons_succ, ← Nat.add_assoc, Nat.add_right_comm] at hnext
    let s : State κ ρ := ⟨conn, ⟨answer :: rest, shutdowns, resets⟩, history⟩
    let used : State κ ρ := ⟨conn, ⟨rest, shutdowns, resets⟩, history⟩
    by_cases hlt : sent < data.length
    · have hleaves : sendRound data send (calls, sent) s = .ok (.inr sent) used →
          run (round (sendRound data send)) (rest.length + 3) ((calls, sent), s) =
            some (.ok sent used) := fun hround => run_leaves (round_leaves hround)
      have hgoes : sendRound data send (calls, sent) s = .ok (.inl (calls + 1, sent)) used →
          run (round (sendRound data send)) (rest.length + 3) ((calls, sent), s) =
            some (sendLoop data rest sent used) :=
        fun hround => (run_goes_on (round_goes_on hround)).trans (ih hsent conn _ hrest)
      simp only [sendLoop, if_pos hlt]
      cases answer with
      | accepted count =>
        have hle : min (sent + count) data.length ≤ data.length := Nat.min_le_right _ _
        refine (run_goes_on (round_goes_on ?_)).trans (ih hle conn _ hrest)
        simp only [sendRound, if_pos hlt, hanswer]
        rfl
      | error errno =>
        cases errno with
        | EAGAIN => exact hleaves (by simp only [sendRound, if_pos hlt, hanswer]; rfl)
        | EWOULDBLOCK => exact hleaves (by simp only [sendRound, if_pos hlt, hanswer]; rfl)
        | ENOTCONN => exact hgoes (by simp only [sendRound, if_pos hlt, hanswer]; rfl)
        | other code => exact hgoes (by simp only [sendRound, if_pos hlt, hanswer]; rfl)
        | EPIPE =>
          have hround : sendRound data send (calls, sent) s =
              (abortFromEventLoop >>= fun _ => pure (.inr data.length) : Comp κ ρ _) used := by
            simp only [sendRound, if_pos hlt, hanswer]
            rfl
          change _ = some ((abortFromEventLoop >>= fun _ => pure data.length : Comp κ ρ Nat) used)
          cases habort : abortFromEventLoop used with
          | ok _ t =>
            rw [bind_of_ok habort] at hround ⊢
            exact run_leaves (round_leaves hround)
          | error e t =>
            rw [bind_of_error habort] at hround ⊢
            exact run_leaves (round_stops hround)
    · simp only [sendLoop, if_neg hlt]
      refine run_leaves (round_leaves ?_)
      simp only [sendRound, if_neg hlt]
      rfl

/-- A list of answers is a kernel that accepts all there is behind it. -/
theorem sendAsManyDataFrom_eq (data : List UInt8) (s : State κ ρ) :
    sendAsManyDataFrom data (fun i => s.kernel.sends.getD i (.accepted data.length))
      (s.kernel.sends.length + 2) s = some (sendAsManyData data s) := by
  rw [sendAsManyDataFrom]
  split
  · rename_i hempty
    simp only [sendAsManyData, if_pos hempty]
    rfl
  · rename_i hdata
    rw [run_sendRound (fun i => by rw [Nat.zero_add]) rfl (Nat.zero_le _)]
    simp only [sendAsManyData, if_neg hdata]
    rfl

/-- The answers that `_receive_all_data` leaves its loop on. -/
def endsReceiving : RecvResult → Bool
  | .read data => data.length = 0
  | .error .EAGAIN | .error .EWOULDBLOCK => true
  | .error _ => false

/-- The answers that `_send_as_many_data` leaves its loop on. -/
def endsSending : SendResult → Bool
  | .error .EAGAIN | .error .EWOULDBLOCK | .error .EPIPE => true
  | .accepted _ | .error _ => false

/-- The bytes that a call of `::send` brings the loop nearer to its end. -/
def acceptedCount : SendResult → Nat
  | .accepted count => count
  | .error _ => 0

/-- The bytes that the first `k` calls of `::send` accept. -/
def acceptedBefore (send : Nat → SendResult) : Nat → Nat
  | 0 => 0
  | k + 1 => acceptedBefore send k + acceptedCount (send k)

/-- A connection whose events are handled: its input buffer is in order, and an abort would find
the socket to reset. -/
structure InService (s : State κ ρ) : Prop where
  input : s.conn.inputBuffer.Valid
  aborted : s.conn.isAborted = false
  reset : s.conn.isReset = false
  resets : s.kernel.resets.headD .success = .success

section Rounds

variable {recv : Nat → RecvResult} {data : List UInt8} {send : Nat → SendResult} {calls : Nat}
  {s : State κ ρ}

theorem receiveRound_of_ends (h : endsReceiving (recv calls) = true) (total : Nat)
    (s : State κ ρ) :
    ∃ t, receiveRound (κ := κ) (ρ := ρ) recv (calls, total) s = .ok (.inr total) t := by
  cases hanswer : recv calls with
  | read data =>
    rw [hanswer] at h
    have hdata : ¬data.length > 0 := by
      have hempty : data.length = 0 := of_decide_eq_true h
      omega
    refine ⟨{ s with conn.pollable := s.conn.pollable.disableReadEvent }, ?_⟩
    simp only [receiveRound, hanswer, if_neg hdata]
    rfl
  | error errno =>
    rw [hanswer] at h
    refine ⟨s, ?_⟩
    cases errno with
    | EAGAIN => simp only [receiveRound, hanswer]; rfl
    | EWOULDBLOCK => simp only [receiveRound, hanswer]; rfl
    | EPIPE => exact nomatch h
    | ENOTCONN => exact nomatch h
    | other code => exact nomatch h

/-- Any other answer is behind the loop's next call. -/
theorem receiveRound_of_not_ends (h : endsReceiving (recv calls) = false)
    (hvalid : s.conn.inputBuffer.Valid) (total : Nat) : ∃ total' t,
      receiveRound recv (calls, total) s = .ok (.inl (calls + 1, total')) t ∧
      t.conn.inputBuffer.Valid := by
  cases hanswer : recv calls with
  | read data =>
    rw [hanswer] at h
    have hdata : data.length > 0 := Nat.pos_of_ne_zero (of_decide_eq_false h)
    obtain ⟨b, hb, hbvalid, _⟩ := MutableSizeTcpBuffer.append_spec hvalid data
    have happend : wp (appendInput data) (fun _ t => t = { s with conn.inputBuffer := b })
        (fun _ _ => False) s := by
      simp only [appendInput, wp_bind, wp_get, wp_liftPure, hb]
      rfl
    obtain ⟨_, t, hok, rfl⟩ := ok_of_wp happend
    refine ⟨total + data.length, { s with conn.inputBuffer := b }, ?_, hbvalid⟩
    simp only [receiveRound, hanswer, if_pos hdata]
    exact bind_of_ok hok
  | error errno =>
    rw [hanswer] at h
    refine ⟨total, s, ?_, hvalid⟩
    cases errno with
    | EAGAIN => cases h
    | EWOULDBLOCK => cases h
    | EPIPE => simp only [receiveRound, hanswer]; rfl
    | ENOTCONN => simp only [receiveRound, hanswer]; rfl
    | other code => simp only [receiveRound, hanswer]; rfl

theorem sendRound_of_sent {sent : Nat} (h : data.length ≤ sent) (send : Nat → SendResult)
    (calls : Nat) (s : State κ ρ) :
    sendRound (κ := κ) (ρ := ρ) data send (calls, sent) s = .ok (.inr sent) s := by
  simp only [sendRound, if_neg (Nat.not_lt.mpr h)]
  rfl

theorem InService.abort (hs : InService s) : ∃ t, abortFromEventLoop s = .ok () t := by
  have habort : wp abortFromEventLoop (fun _ _ => True) (fun _ _ => False) s := by
    simp only [abortFromEventLoop, resetConnection, runCloseCallback, nextReset, detachFromPoller,
      wp_bind, wp_get, wp_modify, wp_modifyGet, hs.aborted, hs.reset, hs.resets,
      Bool.false_eq_true, if_false]
  obtain ⟨_, t, hok, _⟩ := ok_of_wp habort
  exact ⟨t, hok⟩

theorem sendRound_of_ends {sent : Nat} (h : endsSending (send calls) = true) (hs : InService s)
    (hsent : sent < data.length) :
    ∃ n t, sendRound data send (calls, sent) s = .ok (.inr n) t := by
  cases hanswer : send calls with
  | accepted count =>
    rw [hanswer] at h
    exact nomatch h
  | error errno =>
    rw [hanswer] at h
    simp only [sendRound, if_pos hsent, hanswer]
    cases errno with
    | EAGAIN => exact ⟨sent, _, rfl⟩
    | EWOULDBLOCK => exact ⟨sent, _, rfl⟩
    | EPIPE =>
      have hused : InService { s with kernel.sends := s.kernel.sends.tail } :=
        ⟨hs.input, hs.aborted, hs.reset, hs.resets⟩
      obtain ⟨t, hok⟩ := hused.abort
      exact ⟨data.length, t, bind_of_ok hok⟩
    | ENOTCONN => exact nomatch h
    | other code => exact nomatch h

/-- Any other answer is behind the loop's next call. -/
theorem sendRound_of_not_ends {sent : Nat} (h : endsSending (send calls) = false)
    (hs : InService s) (hsent : sent < data.length) :
    ∃ t, sendRound data send (calls, sent) s =
      .ok (.inl (calls + 1, min (sent + acceptedCount (send calls)) data.length)) t ∧
      InService t := by
  have hmin : min (sent + 0) data.length = sent := Nat.min_eq_left (Nat.le_of_lt hsent)
  cases hanswer : send calls with
  | accepted count =>
    simp only [sendRound, if_pos hsent, hanswer]
    exact ⟨_, rfl, hs.input, hs.aborted, hs.reset, hs.resets⟩
  | error errno =>
    rw [hanswer] at h
    simp only [sendRound, if_pos hsent, hanswer, acceptedCount, hmin]
    cases errno with
    | EAGAIN => exact nomatch h
    | EWOULDBLOCK => exact nomatch h
    | EPIPE => exact nomatch h
    | ENOTCONN => exact ⟨_, rfl, hs.input, hs.aborted, hs.reset, hs.resets⟩
    | other code => exact ⟨_, rfl, hs.input, hs.aborted, hs.reset, hs.resets⟩

end Rounds

section Returns

variable {recv : Nat → RecvResult} {data : List UInt8} {send : Nat → SendResult} {s : State κ ρ}

/-- The loop is left at the first answer that ends it, and by no other. -/
theorem receiveAllData_returns_iff (hvalid : s.conn.inputBuffer.Valid) :
    (∃ rounds total t, receiveAllDataFrom recv rounds s = some (.ok total t)) ↔
      ∃ k, endsReceiving (recv k) = true := by
  have hgoes : ∀ u : (Nat × Nat) × State κ ρ, u.2.conn.inputBuffer.Valid →
      ¬endsReceiving (recv u.1.1) = true →
      ∃ v, round (receiveRound recv) u = .inl v ∧ v.2.conn.inputBuffer.Valid ∧
        v.1.1 = u.1.1 + 1 := by
    intro u hu hnot
    obtain ⟨total, t, hround, ht⟩ := receiveRound_of_not_ends (by simpa using hnot) hu u.1.2
    exact ⟨((u.1.1 + 1, total), t), round_goes_on hround, ht, rfl⟩
  have hleaves : ∀ u : (Nat × Nat) × State κ ρ, u.2.conn.inputBuffer.Valid →
      endsReceiving (recv u.1.1) = true →
      ∃ r, round (receiveRound recv) u = .inr r ∧ ∃ total t, r = .ok total t := by
    intro u _ hends
    obtain ⟨t, hround⟩ := receiveRound_of_ends hends u.1.2 u.2
    exact ⟨_, round_leaves hround, u.1.2, t, rfl⟩
  have hiff := returns_iff_of_count (I := fun u => u.2.conn.inputBuffer.Valid) (fun u => u.1.1)
    (fun k => endsReceiving (recv k) = true) hgoes hleaves (s := ((0, 0), s)) hvalid rfl
  rw [← hiff]
  constructor
  · intro hreturns
    obtain ⟨rounds, total, t, hrun⟩ := hreturns
    exact ⟨rounds, _, hrun, total, t, rfl⟩
  · intro hreturns
    obtain ⟨rounds, r, hrun, total, t, rfl⟩ := hreturns
    exact ⟨rounds, total, t, hrun⟩

/-- The loop is left when everything has been accepted, or at the first answer that ends it. -/
theorem sendAsManyData_returns_iff (hs : InService s) :
    (∃ rounds sent t, sendAsManyDataFrom data send rounds s = some (.ok sent t)) ↔
      ∃ k, data.length ≤ acceptedBefore send k ∨ endsSending (send k) = true := by
  by_cases hempty : data.length = 0
  · refine ⟨fun _ => ⟨0, .inl (by omega)⟩, fun _ => ⟨0, 0, s, ?_⟩⟩
    rw [sendAsManyDataFrom, if_pos hempty]
  have hrun : ∀ rounds, sendAsManyDataFrom data send rounds s =
      run (round (sendRound data send)) rounds ((0, 0), s) := fun _ => if_neg hempty
  simp only [hrun]
  let Sent (u : (Nat × Nat) × State κ ρ) : Prop :=
    u.1.2 = min (acceptedBefore send u.1.1) data.length ∧ InService u.2
  have hstart : Sent ((0, 0), s) := ⟨(Nat.zero_min _).symm, hs⟩
  have hgoes : ∀ u, Sent u →
      ¬(data.length ≤ acceptedBefore send u.1.1 ∨ endsSending (send u.1.1) = true) →
      ∃ v, round (sendRound data send) u = .inl v ∧ Sent v ∧ v.1.1 = u.1.1 + 1 := by
    intro u hu hnot
    obtain ⟨hsent, hu⟩ := hu
    have hlt : u.1.2 < data.length := by omega
    have hanswer : endsSending (send u.1.1) = false := by
      by_contra hends
      exact hnot (.inr (by simpa using hends))
    obtain ⟨t, hround, ht⟩ := sendRound_of_not_ends hanswer hu hlt
    refine ⟨(_, t), round_goes_on hround, ⟨?_, ht⟩, rfl⟩
    simp only [acceptedBefore]
    omega
  have hleaves : ∀ u, Sent u →
      data.length ≤ acceptedBefore send u.1.1 ∨ endsSending (send u.1.1) = true →
      ∃ r, round (sendRound data send) u = .inr r ∧ ∃ sent t, r = .ok sent t := by
    intro u hu hends
    by_cases hlt : u.1.2 < data.length
    · have hanswer : endsSending (send u.1.1) = true := by
        cases hends with
        | inl hall =>
          have hsent := hu.1
          omega
        | inr hanswer => exact hanswer
      obtain ⟨n, t, hround⟩ := sendRound_of_ends hanswer hu.2 hlt
      exact ⟨_, round_leaves hround, n, t, rfl⟩
    · have hround := sendRound_of_sent (Nat.not_lt.mp hlt) send u.1.1 u.2
      exact ⟨_, round_leaves hround, _, _, rfl⟩
  have hiff := returns_iff_of_count (fun u => u.1.1)
    (fun k => data.length ≤ acceptedBefore send k ∨ endsSending (send k) = true) hgoes hleaves
    hstart rfl
  rw [← hiff]
  constructor
  · intro hreturns
    obtain ⟨rounds, sent, t, hreturn⟩ := hreturns
    exact ⟨rounds, _, hreturn, sent, t, rfl⟩
  · intro hreturns
    obtain ⟨rounds, r, hreturn, sent, t, rfl⟩ := hreturns
    exact ⟨rounds, sent, t, hreturn⟩

end Returns

/-- A call of `_receive_all_data` ends in this environment. -/
def ReceivingReturns (recv : Nat → RecvResult) (s : State κ ρ) : Prop :=
  ∃ rounds total t, receiveAllDataFrom recv rounds s = some (.ok total t)

/-- A call of `_send_as_many_data` ends in this environment. -/
def SendingReturns (data : List UInt8) (send : Nat → SendResult) (s : State κ ρ) : Prop :=
  ∃ rounds sent t, sendAsManyDataFrom data send rounds s = some (.ok sent t)

/-- The loops end on what they test for: the end of the stream, all the data accepted, `EAGAIN`,
`EWOULDBLOCK` and, for sending, `EPIPE`. No other error ends them, however often it comes. -/
theorem loops_return_iff (recv : Nat → RecvResult) (send : Nat → SendResult) (data : List UInt8)
    {s : State κ ρ} (hs : InService s) :
    (ReceivingReturns recv s ↔ ∃ k, endsReceiving (recv k) = true) ∧
    (SendingReturns data send s ↔
      ∃ k, data.length ≤ acceptedBefore send k ∨ endsSending (send k) = true) :=
  ⟨receiveAllData_returns_iff hs.input, sendAsManyData_returns_iff hs⟩

theorem inService_started (timeStamp : Int) (context : Option κ)
    (callback : Option WriteCompleteCallback) :
    InService (started (ρ := ρ) timeStamp context callback) :=
  ⟨MutableSizeTcpBuffer.valid_new, rfl, rfl, rfl⟩

/-- An interrupted call is made again. -/
theorem loops_return_iff_interrupted :
    ReceivingReturns (fun k => if k < 3 then .error (.other 4) else .error .EAGAIN)
        (started 0 (some ()) none : State Unit Unit) ∧
      SendingReturns (bytes "ab") (fun k => if k < 3 then .error (.other 4) else .accepted 1)
        (started 0 (some ()) none : State Unit Unit) := by
  have hiff := loops_return_iff (fun k => if k < 3 then .error (.other 4) else .error .EAGAIN)
    (fun k => if k < 3 then .error (.other 4) else .accepted 1) (bytes "ab")
    (inService_started (κ := Unit) (ρ := Unit) 0 (some ()) none)
  exact ⟨hiff.1.mpr ⟨3, by decide⟩, hiff.2.mpr ⟨5, by decide⟩⟩

/-- Each loop hangs on an error that persists, although no call of `::recv` returns data and no
call of `::send` accepts a byte. -/
theorem not_loops_return_of_persistent :
    (¬∀ (recv : Nat → RecvResult) (s : State Unit Unit), InService s →
      (∃ n, ∀ k ≥ n, ∀ data, recv k = .read data → data = []) → ReceivingReturns recv s) ∧
    ¬∀ (send : Nat → SendResult) (data : List UInt8) (s : State Unit Unit), InService s →
      (∃ n, ∀ k ≥ n, acceptedCount (send k) = 0) → SendingReturns data send s := by
  have hservice := inService_started (κ := Unit) (ρ := Unit) 0 (some ()) none
  have hnothing : ∀ k, acceptedBefore (fun _ => .error (.other 12)) k = 0 := by
    intro k
    induction k with
    | zero => rfl
    | succ k ih => rw [acceptedBefore, ih, acceptedCount]
  constructor
  · intro hreturns
    obtain ⟨_, hends⟩ := (receiveAllData_returns_iff hservice.input).mp
      (hreturns (fun _ => .error (.other 12)) _ hservice ⟨0, fun _ _ _ => nofun⟩)
    exact nomatch hends
  · intro hreturns
    obtain ⟨k, hends⟩ := (sendAsManyData_returns_iff hservice).mp
      (hreturns (fun _ => .error (.other 12)) (bytes "a") _ hservice ⟨0, fun _ _ => rfl⟩)
    cases hends with
    | inl hall =>
      rw [hnothing] at hall
      exact absurd hall (by decide)
    | inr hends => exact nomatch hends

end XubinhServer.TcpConnectSocketfd

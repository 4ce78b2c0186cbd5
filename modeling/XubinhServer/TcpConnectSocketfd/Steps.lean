import XubinhServer.TcpConnectSocketfd

/-! What the methods of a connection can do, stated once for all the invariants. -/
namespace XubinhServer

open Halting

variable {κ ρ : Type}

namespace State

/-- The kernel has taken `data`, with the answers `sends` left. -/
def took (s : State κ ρ) (sends : List SendResult) (data : List UInt8) : State κ ρ :=
  { s with kernel.sends := sends, history.accepted := s.history.accepted ++ data }

/-- What an abort makes of a connection that has not been reset. -/
def aborted (s : State κ ρ) : State κ ρ where
  conn := { s.conn with
    pollable := s.conn.pollable.detachFromPoller
    inputBuffer := s.conn.inputBuffer.release
    outputBuffer := s.conn.outputBuffer.release
    context := none
    isWriteEndShutdown := true
    isReset := true
    isAborted := true }
  kernel := { s.kernel with resets := s.kernel.resets.tail }
  history := { s.history with
    closeCallbackRuns :=
      s.history.closeCallbackRuns + if s.conn.hasCloseCallback then 1 else 0 }

theorem took_nil (s : State κ ρ) (sends : List SendResult) :
    s.took sends [] = { s with kernel.sends := sends } := by
  simp [took]

theorem took_took (s : State κ ρ) (sends sends' : List SendResult) (data data' : List UInt8) :
    (s.took sends data).took sends' data' = s.took sends' (data ++ data') := by
  simp [took]

end State

namespace TcpConnectSocketfd

/-- The bytes that the answers of `::recv` bring. -/
def received : List RecvResult → List UInt8
  | [] => []
  | .read data :: rest => if data.length > 0 then data ++ received rest else []
  | .error .EAGAIN :: _ | .error .EWOULDBLOCK :: _ => []
  | .error _ :: rest => received rest

/-- The answers of `::recv` include the end of the stream. -/
def endsStream : List RecvResult → Bool
  | [] => false
  | .read data :: rest => if data.length > 0 then endsStream rest else true
  | .error .EAGAIN :: _ | .error .EWOULDBLOCK :: _ => false
  | .error _ :: rest => endsStream rest

/-- Reading is disabled at the end of the stream. -/
def pollableAfter (recvs : List RecvResult) (s : State κ ρ) : PollableFileDescriptor :=
  if endsStream recvs then s.conn.pollable.disableReadEvent else s.conn.pollable

variable {Q : Nat → State κ ρ → Prop} {E : Halt → State κ ρ → Prop} {s : State κ ρ}

/-- An abort either does all it has to do, or stops before or behind the close callback. -/
theorem abortFromEventLoop_rule {Q : Unit → State κ ρ → Prop}
    (hok : s.conn.isAborted = false → s.conn.isReset = false → Q () s.aborted)
    (hagain : s.conn.isAborted = true ∨ s.conn.isReset = true →
      ∀ t, t.history = s.history ∧ t.conn.inputBuffer = s.conn.inputBuffer →
        E (.logFatal "never reaches here") t)
    (hfail : s.conn.isAborted = false → s.conn.isReset = false →
      ∀ m t, m = "setsockopt failed" ∨ m = "close failed" →
        t.history = s.aborted.history ∧ t.conn.inputBuffer = s.conn.inputBuffer →
          E (.logFatal m) t) :
    wp abortFromEventLoop Q E s := by
  simp only [abortFromEventLoop, resetConnection, runCloseCallback, nextReset, detachFromPoller,
    wp_bind, wp_get, wp_ite, wp_throw, wp_modify, wp_modifyGet]
  cases ha : s.conn.isAborted with
  | true => exact hagain (.inl ha) s ⟨rfl, rfl⟩
  | false =>
    cases hr : s.conn.isReset with
    | true => exact hagain (.inr hr) _ ⟨rfl, rfl⟩
    | false =>
      simp only [Bool.false_eq_true, if_false]
      cases s.kernel.resets.headD .success with
      | success => exact hok ha hr
      | setsockoptFailed => exact hfail ha hr _ _ (.inl rfl) ⟨rfl, rfl⟩
      | closeFailed => exact hfail ha hr _ _ (.inr rfl) ⟨rfl, rfl⟩

theorem accepted_part {data : List UInt8} {sent : Nat} (hsent : sent ≤ data.length)
    (count : Nat) : ∃ c, min (sent + count) data.length = sent + c ∧
      (data.drop sent).take count = (data.drop sent).take c := by
  refine ⟨min count (data.length - sent), by omega, ?_⟩
  rw [List.take_eq_take_iff, List.length_drop]
  omega

/-- Sending takes a part of the data, or finds the peer gone and aborts. -/
theorem sendLoop_rule {data : List UInt8} {sends : List SendResult} {sent : Nat}
    (hsent : sent ≤ data.length)
    (hok : ∀ ks n, sent ≤ n → n ≤ data.length → Q n (s.took ks ((data.drop sent).take (n - sent))))
    (habort : ∀ ks n, wp abortFromEventLoop (fun _ t => Q data.length t) E
      (s.took ks ((data.drop sent).take n))) :
    wp (sendLoop data sends sent) Q E s := by
  induction sends generalizing s sent with
  | nil =>
    have h := hok s.kernel.sends data.length hsent (Nat.le_refl _)
    rw [List.take_of_length_le (Nat.le_of_eq (List.length_drop ..))] at h
    exact h
  | cons answer rest ih =>
    have hstop := hok rest sent (Nat.le_refl _) hsent
    have hpipe := habort rest 0
    rw [Nat.sub_self, List.take_zero, State.took_nil] at hstop
    rw [List.take_zero, State.took_nil] at hpipe
    have hretry : wp (sendLoop data rest sent) Q E { s with kernel.sends := rest } :=
      ih hsent hok habort
    simp only [sendLoop, wp_ite, wp_bind, wp_modify]
    split
    · cases answer with
      | accepted count =>
        obtain ⟨c, hc, htake⟩ := accepted_part hsent count
        have hsplit : ∀ k, (data.drop sent).take count ++ (data.drop (sent + c)).take k =
            (data.drop sent).take (c + k) := by
          intro k
          rw [htake, List.take_add, List.drop_drop]
        simp only [hc]
        refine ih (s := s.took rest ((data.drop sent).take count)) (by omega) ?_ ?_
        · intro ks n hle hn
          rw [State.took_took, hsplit, show c + (n - (sent + c)) = n - sent by omega]
          exact hok ks n (by omega) hn
        · intro ks n
          rw [State.took_took, hsplit]
          exact habort ks (c + n)
      | error errno =>
        cases errno with
        | EAGAIN => exact hstop
        | EWOULDBLOCK => exact hstop
        | EPIPE => exact wp_bind .. ▸ hpipe
        | ENOTCONN => exact hretry
        | other code => exact hretry
    · have h := hok s.kernel.sends sent (Nat.le_refl _) hsent
      rw [Nat.sub_self, List.take_zero, State.took_nil] at h
      exact h

/-- `sendLoop_rule` for the whole of `_send_as_many_data`. -/
theorem sendAsManyData_rule {data : List UInt8}
    (hok : ∀ ks n, n ≤ data.length → Q n (s.took ks (data.take n)))
    (habort : ∀ ks n, wp abortFromEventLoop (fun _ t => Q data.length t) E
      (s.took ks (data.take n))) :
    wp (sendAsManyData data) Q E s := by
  unfold sendAsManyData
  simp only [wp_ite, wp_bind, wp_get, wp_pure]
  split
  · have h := hok s.kernel.sends 0 (Nat.zero_le _)
    rw [List.take_zero, State.took_nil] at h
    exact h
  · exact sendLoop_rule (Nat.zero_le _) (fun ks n _ hn => hok ks n hn) habort

/-- A flush moves the output buffer on behind what the kernel has taken. -/
theorem flushOutput_rule {I : Bool → State κ ρ → Prop}
    (hok : ∀ ks n, n ≤ s.conn.outputBuffer.unread.length →
      I (n = s.conn.outputBuffer.unread.length)
        { s.took ks (s.conn.outputBuffer.unread.take n) with
          conn.outputBuffer := s.conn.outputBuffer.forwardReadPosition n })
    (habort : ∀ ks n, wp abortFromEventLoop
      (fun _ t => I true { t with
        conn.outputBuffer := t.conn.outputBuffer.forwardReadPosition
          s.conn.outputBuffer.unread.length }) E (s.took ks (s.conn.outputBuffer.unread.take n)))
    (hnone : s.conn.outputBuffer.unread = [] → I true s) : wp flushOutput I E s := by
  simp only [flushOutput, wp_bind, wp_get, wp_ite, wp_pure]
  split
  · refine sendAsManyData_rule hok fun ks n => ?_
    simp only [decide_true]
    exact habort ks n
  · rename_i hempty
    exact hnone (List.length_eq_zero_iff.mp (Nat.eq_zero_of_not_pos hempty))

/-- The write-complete callback runs where the flush has left nothing behind. -/
theorem flushAndComplete_rule {I Q : Bool → State κ ρ → Prop} {writeComplete : Comp κ ρ Unit}
    (hflush : wp flushOutput I E s)
    (hdone : ∀ t, I true t → wp writeComplete (fun _ => Q true) E
      { t with conn.pollable := t.conn.pollable.disableWriteEvent })
    (hrest : ∀ t, I false t → Q false t) : wp (flushAndComplete writeComplete) Q E s := by
  rw [flushAndComplete, wp_bind]
  refine wp_mono hflush (fun done t ht => ?_) fun _ _ => id
  cases done with
  | true =>
    simp only [if_true, wp_bind, disableWriteEvent, wp_modify]
    exact hdone t ht
  | false => exact hrest t ht

theorem received_nothing (hb : s.conn.inputBuffer.Valid) (total : Nat)
    (p : PollableFileDescriptor) :
    total = total + ([] : List UInt8).length ∧ ∃ b : MutableSizeTcpBuffer, b.Valid ∧
      b.unread = s.conn.inputBuffer.unread ++ [] ∧ ({ s with conn.pollable := p } : State κ ρ) =
        { s with conn.inputBuffer := b, conn.pollable := p } :=
  ⟨rfl, s.conn.inputBuffer, hb, by rw [List.append_nil], rfl⟩

/-- What has been received is in the buffer, behind what has been there. -/
theorem receiveLoop_received {recvs : List RecvResult} {total : Nat}
    (hb : s.conn.inputBuffer.Valid) :
    wp (receiveLoop recvs total)
      (fun n t => n = total + (received recvs).length ∧ ∃ b : MutableSizeTcpBuffer,
        b.Valid ∧ b.unread = s.conn.inputBuffer.unread ++ received recvs ∧
          t = { s with conn.inputBuffer := b, conn.pollable := pollableAfter recvs s })
      (fun _ _ => False) s := by
  induction recvs generalizing total s with
  | nil => exact received_nothing hb total s.conn.pollable
  | cons answer rest ih =>
    cases answer with
    | read data =>
      simp only [receiveLoop, received, pollableAfter, endsStream, wp_ite]
      split
      · obtain ⟨b, happend, hvalid, hunread⟩ := MutableSizeTcpBuffer.append_spec hb data
        simp only [wp_bind, appendInput, wp_get, wp_liftPure, happend]
        have hrest := @ih { s with conn.inputBuffer := b } (total + data.length) hvalid
        refine wp_mono hrest ?_ fun _ _ => id
        intro n t h
        obtain ⟨hn, c, hc, hcu, rfl⟩ := h
        refine ⟨?_, c, hc, ?_, rfl⟩
        · rw [List.length_append]
          omega
        · rw [hcu, hunread, List.append_assoc]
      · exact received_nothing hb total s.conn.pollable.disableReadEvent
    | error errno =>
      cases errno with
      | EAGAIN => exact received_nothing hb total s.conn.pollable
      | EWOULDBLOCK => exact received_nothing hb total s.conn.pollable
      | EPIPE => exact ih hb
      | ENOTCONN => exact ih hb
      | other code => exact ih hb

end TcpConnectSocketfd

end XubinhServer

import XubinhServer.TcpConnectSocketfd.Steps

/-! The echo server's message callback, which sends the lines of the input buffer one by one. The
kernel may answer that the peer is gone; the connection is then reset in the middle of the loop,
and the buffer that the loop walks over is released with its offsets as they were. -/
namespace XubinhServer

open Halting

/-- A piece of a byte stream up to and with a newline. -/
def lines : List UInt8 → List (List UInt8)
  | [] => []
  | b :: u =>
    if b = 10 then [b] :: lines u
    else
      match lines u with
      | [] => []
      | line :: more => (b :: line) :: more

/-- What is behind the last newline. -/
def partialLine : List UInt8 → List UInt8
  | [] => []
  | b :: u => if b ≠ 10 ∧ lines u = [] then b :: partialLine u else partialLine u

namespace MutableSizeTcpBuffer

/-- There is nothing to read, and the searches say so. -/
structure Inert (b : MutableSizeTcpBuffer) : Prop where
  readable : b.getReadableSize = 0
  newline : b.getNextNewlinePosition = .ok none
  crlf : b.getNextCrlfPosition = .ok none

/-- Once it has been released, it is inert. -/
def Settled (b : MutableSizeTcpBuffer) : Prop := b.beginPtrIsNull = true → b.Inert

theorem lines_of_newlineIndex {u : List UInt8} {n : Nat} (h : newlineIndex u = some n) :
    n < u.length ∧ lines u = u.take (n + 1) :: lines (u.drop (n + 1)) ∧
      partialLine u = partialLine (u.drop (n + 1)) := by
  induction u generalizing n with
  | nil => cases h
  | cons b u ih =>
    rw [newlineIndex] at h
    split at h
    · rename_i hb
      cases h
      refine ⟨Nat.succ_pos _, ?_, ?_⟩
      · rw [lines, if_pos hb]
        rfl
      · rw [partialLine, if_neg fun hboth => hboth.1 hb]
        rfl
    · rename_i hb
      rw [Option.map_eq_some_iff] at h
      obtain ⟨m, hm, rfl⟩ := h
      obtain ⟨hlt, hlines, htail⟩ := ih hm
      refine ⟨Nat.succ_lt_succ hlt, ?_, ?_⟩
      · rw [lines, if_neg hb, hlines]
        rfl
      · have hline : ¬(b ≠ 10 ∧ lines u = []) := by
          rw [hlines]
          exact fun hboth => by cases hboth.2
        rw [partialLine, if_neg hline]
        exact htail

theorem lines_of_none {u : List UInt8} (h : newlineIndex u = none) :
    lines u = [] ∧ partialLine u = u := by
  induction u with
  | nil => exact ⟨rfl, rfl⟩
  | cons b u ih =>
    rw [newlineIndex] at h
    split at h
    · cases h
    · rename_i hb
      rw [Option.map_eq_none_iff] at h
      obtain ⟨hlines, htail⟩ := ih h
      refine ⟨?_, ?_⟩
      · rw [lines, if_neg hb, hlines]
      · rw [partialLine, if_pos ⟨hb, hlines⟩, htail]

theorem release_null (b : MutableSizeTcpBuffer) : b.release.beginPtrIsNull = true := by
  rw [release]
  split
  · assumption
  · rfl

theorem getReadableSize_release (b : MutableSizeTcpBuffer) :
    b.release.getReadableSize = b.getReadableSize := by
  rw [release]
  split
  · rfl
  · rfl

/-- Releasing a buffer settles it exactly if all of it has been read. -/
theorem settled_release {b : MutableSizeTcpBuffer} (hb : b.Valid) :
    b.release.Settled ↔ b.unread = [] := by
  have hlength := hb.length_unread
  have hread := hb.read
  constructor
  · intro h
    have hreadable := (h b.release_null).readable
    rw [getReadableSize_release, ← hlength] at hreadable
    exact List.length_eq_zero_iff.1 hreadable
  · intro hnil _
    rw [hnil, getReadableSize, sizeSub, if_pos hread, List.length_nil] at hlength
    have hrelease : b.release.readOffset = b.release.writeOffset := by
      rw [release, if_neg (by rw [hb.pointer]; exact Bool.false_ne_true)]
      dsimp only
      omega
    refine ⟨?_, ?_, ?_⟩
    · rw [getReadableSize, sizeSub, hrelease, if_pos (Nat.le_refl _), Nat.sub_self]
    · rw [getNextNewlinePosition, if_pos (Nat.le_of_eq hrelease.symm)]
      rfl
    · rw [getNextCrlfPosition, if_pos (Nat.le_of_eq hrelease.symm)]
      rfl

end MutableSizeTcpBuffer

namespace TcpConnectSocketfd

/-- How the loop of `_send_as_many_data` ends: all is sent, the rest has to wait, or the peer is
gone. -/
inductive SendEnd where
  | all | later | broken
  deriving DecidableEq, Repr

/-- How the loop ends for `length` bytes, from `sent` on, and the answers that it leaves. -/
def sendEnd (length : Nat) : List SendResult → (sent : Nat) → SendEnd × List SendResult
  | [], _ => (.all, [])
  | answer :: rest, sent =>
    if sent < length then
      match answer with
      | .accepted count => sendEnd length rest (min (sent + count) length)
      | .error .EAGAIN | .error .EWOULDBLOCK => (.later, rest)
      | .error .EPIPE => (.broken, rest)
      | .error _ => sendEnd length rest sent
    else (.all, answer :: rest)

/-- While the lines are sent one by one, the peer is found gone. Once a line has to wait, the
others wait behind it. -/
def breaks : List (List UInt8) → List SendResult → Bool
  | [], _ => false
  | line :: more, sends =>
    match (sendEnd line.length sends 0).1 with
    | .all => breaks more (sendEnd line.length sends 0).2
    | .later => false
    | .broken => true

section Sending
variable {κ ρ : Type} {data : List UInt8} {sends : List SendResult} {s : State κ ρ}
  {Q : Nat → State κ ρ → Prop} {E : Halt → State κ ρ → Prop}

/-- What may follow on the end of the loop. -/
structure Follows (data : List UInt8) (Q : Nat → State κ ρ → Prop) (E : Halt → State κ ρ → Prop)
    (s : State κ ρ) (result : SendEnd × List SendResult) : Prop where
  all : result.1 = .all → ∀ taken, Q data.length (s.took result.2 taken)
  later : result.1 = .later → ∀ n, n < data.length → ∀ taken, Q n (s.took result.2 taken)
  broken : result.1 = .broken → ∀ taken,
    wp abortFromEventLoop (fun _ => Q data.length) E (s.took result.2 taken)

theorem Follows.took {result : SendEnd × List SendResult} (h : Follows data Q E s result)
    (rest : List SendResult) (taken : List UInt8) :
    Follows data Q E (s.took rest taken) result where
  all hr taken' := by
    rw [State.took_took]
    exact h.all hr _
  later hr n hn taken' := by
    rw [State.took_took]
    exact h.later hr n hn _
  broken hr taken' := by
    rw [State.took_took]
    exact h.broken hr _

theorem sendLoop_ends {sent : Nat} (hkernel : s.kernel.sends = sends) (hsent : sent ≤ data.length)
    (h : Follows data Q E s (sendEnd data.length sends sent)) :
    wp (sendLoop data sends sent) Q E s := by
  induction sends generalizing s sent with
  | nil =>
    have hnil := h.all rfl (data.drop sent)
    have hsame : s.took [] (data.drop sent) =
        { s with history.accepted := s.history.accepted ++ data.drop sent } := by
      rw [State.took, ← hkernel]
    rw [sendEnd, hsame] at hnil
    exact hnil
  | cons answer rest ih =>
    unfold sendEnd at h
    simp only [sendLoop, wp_ite, wp_bind, wp_modify]
    split
    · rename_i hlt
      rw [if_pos hlt] at h
      have hretry : ∀ {result}, Follows data Q E s result →
          Follows data Q E { s with kernel.sends := rest } result := by
        intro result hresult
        have htook := hresult.took rest []
        rwa [State.took_nil] at htook
      cases answer with
      | accepted count => exact ih rfl (Nat.min_le_right _ _) (h.took rest _)
      | error errno =>
        cases errno with
        | EAGAIN => exact State.took_nil s rest ▸ h.later rfl sent hlt []
        | EWOULDBLOCK => exact State.took_nil s rest ▸ h.later rfl sent hlt []
        | EPIPE =>
          have habort := h.broken rfl []
          rw [State.took_nil] at habort
          rw [wp_bind]
          exact habort
        | ENOTCONN => exact ih rfl hsent (hretry h)
        | other code => exact ih rfl hsent (hretry h)
    · rename_i hge
      rw [if_neg hge] at h
      have hall := h.all rfl []
      rw [State.took_nil, ← hkernel, Nat.le_antisymm (Nat.le_of_not_lt hge) hsent] at hall
      exact hall

theorem wp_runWriteComplete_none {Q : Unit → State κ ρ → Prop} {script : Nat → List Call}
    {depth : Nat} (hcallback : s.conn.writeCompleteCallback = none) :
    wp (runWriteComplete script depth) Q E s = Q () s := by
  cases depth with
  | zero => simp [runWriteComplete, hcallback]
  | succ depth => simp [runWriteComplete, hcallback]

end Sending

end TcpConnectSocketfd

namespace EchoServer

open TcpConnectSocketfd

/-- What can be seen of the message callback: the input buffer as every `send` leaves it, and the
end of the loop. -/
inductive Observation where
  | sent (inputBuffer : MutableSizeTcpBuffer)
  | ended
  deriving DecidableEq

variable {κ : Type}

def observe (observation : Observation) : Comp κ Observation Unit :=
  modify fun s => { s with history.reports := s.history.reports ++ [observation] }

section Callback
variable (writeComplete : Comp κ Observation Unit)

/-- The loop of `message_callback`, for fewer than `fuel` lines. -/
def messageLoop : (fuel : Nat) → Comp κ Observation Unit
  | 0 => pure ()
  | fuel + 1 => do
    let inputBuffer := (← get).conn.inputBuffer
    match ← liftPure inputBuffer.getNextNewlinePosition with
    | none => observe .ended
    | some newlinePosition =>
      let clientMessageLength := newlinePosition + 1 - inputBuffer.readOffset
      TcpConnectSocketfd.send writeComplete (inputBuffer.unread.take clientMessageLength)
      -- the source also writes the line to its debug log here
      observe (.sent (← get).conn.inputBuffer)
      modify fun s => { s with
        conn.inputBuffer := s.conn.inputBuffer.forwardReadPosition clientMessageLength }
      messageLoop fuel

/-- Every line takes at least one byte out of the buffer. -/
def messageCallback : Comp κ Observation Unit := do
  messageLoop writeComplete ((← get).conn.inputBuffer.getReadableSize + 1)

end Callback

/-- The buffers seen so far are settled. -/
def Sound (s : State κ Observation) : Prop := ∀ b, .sent b ∈ s.history.reports → b.Settled

/-- The loop stands before `u`. -/
structure Open (u : List UInt8) (s : State κ Observation) : Prop where
  input : s.conn.inputBuffer.Valid
  unread : s.conn.inputBuffer.unread = u
  output : s.conn.outputBuffer.Valid
  callback : s.conn.writeCompleteCallback = none
  sound : Sound s

/-- The connection is found broken while `pieces` are sent. -/
def Breaks (pieces : List (List UInt8)) (s : State κ Observation) : Prop :=
  s.conn.pollable.isDetached = false ∧ s.conn.pollable.isWriting = false ∧
    breaks pieces s.kernel.sends = true

/-- The connection is gone, and a buffer has been seen that is not settled. -/
structure Lost (s : State κ Observation) : Prop where
  detached : s.conn.pollable.isDetached = true
  shut : s.conn.isWriteEndShutdown = true
  unsound : ¬Sound s

variable {s : State κ Observation} {script : Nat → List Call} {depth : Nat} {u : List UInt8}

theorem sound_of_append {more : List Observation}
    (h : Sound { s with history.reports := s.history.reports ++ more }) : Sound s :=
  fun b hb => h b (List.mem_append_left _ hb)

/-- Nothing is sent on a lost connection, and what has been seen is not undone. -/
theorem messageLoop_lost {fuel : Nat} (hs : Lost s) :
    wp (messageLoop (runWriteComplete script depth) fuel) (fun _ => Lost) (fun _ t => ¬Sound t)
      s := by
  induction fuel generalizing s with
  | zero => exact hs
  | succ fuel ih =>
    simp only [messageLoop, wp_bind, wp_get, wp_liftPure]
    cases s.conn.inputBuffer.getNextNewlinePosition with
    | error e => exact hs.unsound
    | ok position =>
      have hmore : ∀ more, ¬Sound { s with history.reports := s.history.reports ++ more } :=
        fun more h => hs.unsound (sound_of_append h)
      cases position with
      | none => exact ⟨hs.detached, hs.shut, hmore _⟩
      | some newlinePosition =>
        simp only [ends_ok, wp_bind, TcpConnectSocketfd.send, record, wp_modify, wp_get, wp_pure,
          hs.detached, if_true, observe]
        exact ih ⟨hs.detached, hs.shut, hmore _⟩

/-- What an abort leaves behind. -/
structure Gone (s : State κ Observation) : Prop where
  detached : s.conn.pollable.isDetached = true
  shut : s.conn.isWriteEndShutdown = true
  unsettled : ¬s.conn.inputBuffer.Settled

theorem Gone.lost (h : Gone s) (n : Nat) : Lost
    { s with
      conn.inputBuffer := s.conn.inputBuffer.forwardReadPosition n
      history.reports := s.history.reports ++ [.sent s.conn.inputBuffer] } :=
  ⟨h.detached, h.shut, fun hsound => h.unsettled (hsound _ List.mem_concat_self)⟩

theorem Open.gone (hs : Open u s) (hu : u ≠ []) : Gone s.aborted where
  detached := PollableFileDescriptor.detachFromPoller_isDetached _
  shut := rfl
  unsettled h := hu (hs.unread ▸ (MutableSizeTcpBuffer.settled_release hs.input).1 h)

/-- An abort either comes to its end or stops the process, in the middle of the loop. -/
theorem Open.abort (hs : Open u s) (hu : u ≠ []) (hrunning : .ended ∉ s.history.reports) :
    wp abortFromEventLoop (fun _ t => Gone t ∧ t.conn.writeCompleteCallback = none)
      (fun _ t => .ended ∉ t.history.reports) s := by
  apply abortFromEventLoop_rule
  · exact fun _ _ => ⟨hs.gone hu, hs.callback⟩
  · intro _ t ht
    rw [ht.1]
    exact hrunning
  · intro _ _ m t _ ht
    rw [ht.1]
    exact hrunning

theorem Open.append {Q : Unit → State κ Observation → Prop}
    {E : Halt → State κ Observation → Prop} {data : List UInt8} (hs : Open u s)
    (h : ∀ c : MutableSizeTcpBuffer, Open u { s with conn.outputBuffer := c } →
      Q () { s with conn.outputBuffer := c }) : wp (appendOutput data) Q E s := by
  obtain ⟨c, hc, hvalid, _⟩ := MutableSizeTcpBuffer.append_spec hs.output data
  simp only [appendOutput, wp_bind, wp_get, wp_liftPure, hc, ends_ok, wp_modify]
  exact h c ⟨hs.input, hs.unread, hvalid, hs.callback, hs.sound⟩

/-- The loop goes on from `t` with `more` as it would from `s` with `pieces`. -/
structure Onward (u : List UInt8) (pieces more : List (List UInt8)) (s t : State κ Observation) :
    Prop where
  opened : Open u t
  running : .ended ∉ t.history.reports
  reading : t.conn.pollable.isReading = s.conn.pollable.isReading
  breaks : Breaks more t ↔ Breaks pieces s

/-- Sending a piece leaves the loop where it was, unless this finds the connection broken. -/
theorem send_open {data : List UInt8} {more : List (List UInt8)} (hs : Open u s) (hu : u ≠ [])
    (hdata : data ≠ []) (hrunning : .ended ∉ s.history.reports) :
    wp (TcpConnectSocketfd.send (runWriteComplete script depth) data)
      (fun _ t => Onward u (data :: more) more s t ∨ Breaks (data :: more) s ∧ Gone t)
      (fun _ t => Breaks (data :: more) s ∧ .ended ∉ t.history.reports) s := by
  have hopen : ∀ (calls : List Call) (rest : List SendResult) (taken : List UInt8),
      Open u (State.took { s with history.calls := calls } rest taken) :=
    fun _ _ _ => ⟨hs.input, hs.unread, hs.output, hs.callback, hs.sound⟩
  have hopen' : ∀ calls : List Call, Open u { s with history.calls := calls } :=
    fun _ => ⟨hs.input, hs.unread, hs.output, hs.callback, hs.sound⟩
  simp only [TcpConnectSocketfd.send, record, wp_bind, wp_modify, wp_get, wp_ite, wp_pure]
  split
  · rename_i hd
    have hnot : ∀ {pieces}, ¬Breaks pieces s := fun h => absurd (hd.symm.trans h.1) (by decide)
    exact .inl ⟨hopen' _, hrunning, rfl, iff_of_false hnot hnot⟩
  rename_i hd
  split
  · rename_i hw
    have hnot : ∀ {pieces}, ¬Breaks pieces s := fun h => absurd (hw.symm.trans h.2.1) (by decide)
    refine (hopen' _).append fun c hc => ?_
    exact .inl ⟨hc, hrunning, rfl, iff_of_false hnot hnot⟩
  rename_i hw
  have hd := eq_false_of_ne_true hd
  have hw := eq_false_of_ne_true hw
  have hidle : ∀ {pieces}, Breaks pieces s ↔ breaks pieces s.kernel.sends = true :=
    ⟨fun h => h.2.2, fun h => ⟨hd, hw, h⟩⟩
  have hlength : data.length ≠ 0 := fun h => hdata (List.length_eq_zero_iff.1 h)
  simp only [sendAsManyData, if_neg hlength, wp_bind, wp_get]
  refine sendLoop_ends rfl (Nat.zero_le _) ⟨?_, ?_, ?_⟩
  · intro hall taken
    rw [if_pos rfl, wp_runWriteComplete_none]
    · refine .inl ⟨hopen _ _ _, hrunning, rfl, ?_⟩
      rw [hidle, TcpConnectSocketfd.breaks, hall]
      exact ⟨fun h => h.2.2, fun h => ⟨hd, hw, h⟩⟩
    · exact hs.callback
  · intro hlater n hn taken
    rw [if_neg (Nat.ne_of_lt hn), wp_bind]
    refine (hopen _ _ _).append fun c hc => ?_
    refine .inl ⟨⟨hc.input, hc.unread, hc.output, hc.callback, hc.sound⟩, hrunning, ?_, ?_⟩
    · exact PollableFileDescriptor.enableWriteEvent_isReading _
    · rw [hidle, TcpConnectSocketfd.breaks, hlater]
      refine iff_of_false (fun h => ?_) Bool.false_ne_true
      have hwriting := h.2.1
      simp at hwriting
  · intro hbroken taken
    have hbreaks : Breaks (data :: more) s := by
      rw [hidle, TcpConnectSocketfd.breaks, hbroken]
    refine wp_mono ((hopen _ _ _).abort hu hrunning) ?_ fun _ _ he => ⟨hbreaks, he⟩
    intro _ t ht
    rw [if_pos rfl, wp_runWriteComplete_none ht.2]
    exact .inr ⟨hbreaks, ht.1⟩

/-- Once its line has been seen to be sent, the loop moves on behind it. -/
theorem Open.next (hs : Open u s) (n : Nat) : Open (u.drop n)
    { s with
      conn.inputBuffer := s.conn.inputBuffer.forwardReadPosition n
      history.reports := s.history.reports ++ [.sent s.conn.inputBuffer] } := by
  obtain ⟨hvalid, hunread⟩ := MutableSizeTcpBuffer.forwardReadPosition_spec hs.input n
  refine ⟨hvalid, by rw [hunread, hs.unread], hs.output, hs.callback, ?_⟩
  intro b hb
  rw [List.mem_append, List.mem_singleton, Observation.sent.injEq] at hb
  cases hb with
  | inl hold => exact hs.sound b hold
  | inr hnew =>
    intro hnull
    rw [hnew, hs.input.pointer] at hnull
    exact absurd hnull Bool.false_ne_true

/-- The loop ends before the partial line, or finds the connection broken on its way. -/
theorem messageLoop_open {fuel : Nat} (hs : Open u s) (hrunning : .ended ∉ s.history.reports)
    (hfuel : u.length < fuel) :
    wp (messageLoop (runWriteComplete script depth) fuel)
      (fun _ t => ¬Breaks (lines u) s ∧ Open (partialLine u) t ∧ .ended ∈ t.history.reports ∧
          t.conn.pollable.isReading = s.conn.pollable.isReading ∨
        Breaks (lines u) s ∧ Lost t)
      (fun _ t => Breaks (lines u) s ∧ (¬Sound t ∨ .ended ∉ t.history.reports)) s := by
  induction fuel generalizing u s with
  | zero => exact absurd hfuel (Nat.not_lt_zero _)
  | succ fuel ih =>
    have hposition := MutableSizeTcpBuffer.getNextNewlinePosition_spec hs.input
    rw [hs.unread] at hposition
    simp only [messageLoop, wp_bind, wp_get, wp_liftPure, hposition]
    cases hindex : MutableSizeTcpBuffer.newlineIndex u with
    | none =>
      obtain ⟨hlines, htail⟩ := MutableSizeTcpBuffer.lines_of_none hindex
      rw [hlines, htail]
      refine .inl ⟨fun h => Bool.false_ne_true h.2.2, ?_, List.mem_concat_self, rfl⟩
      refine ⟨hs.input, hs.unread, hs.output, hs.callback, fun b hb => hs.sound b ?_⟩
      simpa [observe] using hb
    | some n =>
      obtain ⟨hn, hlines, htail⟩ := MutableSizeTcpBuffer.lines_of_newlineIndex hindex
      have hu : u ≠ [] := List.ne_nil_of_length_pos (Nat.zero_lt_of_lt hn)
      have hdata : u.take (n + 1) ≠ [] := by
        intro hnil
        simp [hu] at hnil
      have hlength : s.conn.inputBuffer.readOffset + n + 1 - s.conn.inputBuffer.readOffset =
          n + 1 := by omega
      simp only [Option.map_some, ends_ok, wp_bind, hlength, hs.unread]
      have hsend := @send_open κ s script depth u _ (lines (u.drop (n + 1))) hs hu hdata hrunning
      rw [← hlines] at hsend
      refine wp_mono hsend ?_ fun _ _ he => ⟨he.1, .inr he.2⟩
      intro _ t ht
      simp only [wp_bind, observe, wp_get, wp_modify]
      cases ht with
      | inl honward =>
        have hstill : .ended ∉ t.history.reports ++ [.sent t.conn.inputBuffer] := by
          simpa using honward.running
        have hshorter : (u.drop (n + 1)).length < fuel := by
          rw [List.length_drop]
          omega
        rw [htail]
        refine wp_mono (ih (honward.opened.next (n + 1)) hstill hshorter) ?_ ?_
        · intro _ v hv
          cases hv with
          | inl hdone =>
            obtain ⟨hwhole, hopen, hended, hreading⟩ := hdone
            exact .inl ⟨fun h => hwhole (honward.breaks.2 h), hopen, hended,
              hreading.trans honward.reading⟩
          | inr hlost => exact .inr ⟨honward.breaks.1 hlost.1, hlost.2⟩
        · exact fun _ _ he => ⟨honward.breaks.1 he.1, he.2⟩
      | inr hgone =>
        refine wp_mono (messageLoop_lost (hgone.2.lost (n + 1))) ?_ ?_
        · exact fun _ _ hlost => .inr ⟨hgone.1, hlost⟩
        · exact fun _ _ hunsound => ⟨hgone.1, .inl hunsound⟩

end EchoServer

end XubinhServer

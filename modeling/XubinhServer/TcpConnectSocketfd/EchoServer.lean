import XubinhServer.TcpConnectSocketfd.EchoLoop
import XubinhServer.TcpConnectSocketfd.OutputOrder

/-! The read events of the echo server, in any run of a connection: exactly when they leave the
buffers as `release` should leave them. -/
namespace XubinhServer.EchoServer

open Halting EventPoller TcpConnectSocketfd Transition

variable {κ ρ : Type} {s : State κ Observation} {script : Nat → List Call} {depth : Nat}
  {recvs : List RecvResult}

/-- The connection as its poller dispatches a read event to it. -/
structure Ready (s : State κ ρ) : Prop where
  input : s.conn.inputBuffer.Valid
  output : s.conn.outputBuffer.Valid
  callback : s.conn.writeCompleteCallback = none

/-- What a read event should leave: the buffers seen behind a `send` and the one of the connection
are settled, and the loop of the message callback has come to its end. -/
structure Law (recvs : List RecvResult) (s : State κ Observation) : Prop where
  sent : Sound s
  left : s.conn.inputBuffer.Settled
  ended : received recvs ≠ [] → .ended ∈ s.history.reports

/-- The read event of the echo server leaves what it should and goes through no null pointer. -/
def Lawful (script : Nat → List Call) (depth : Nat) (recvs : List RecvResult)
    (s : State κ Observation) : Prop :=
  wp (readEventCallback (runWriteComplete script depth) recvs
      (messageCallback (runWriteComplete script depth)))
    (fun _ t => Law recvs t) (fun e t => Law recvs t ∧ e ≠ .nullPointer)
    { s with history.reports := [] }

/-- What the message callback leaves unread. -/
def leftOver (recvs : List RecvResult) (s : State κ ρ) : List UInt8 :=
  if received recvs = [] then s.conn.inputBuffer.unread
  else partialLine (s.conn.inputBuffer.unread ++ received recvs)

/-- No line is answered by the news that the peer is gone. -/
def Whole (recvs : List RecvResult) (s : State κ Observation) : Prop :=
  received recvs ≠ [] → ¬Breaks (lines (s.conn.inputBuffer.unread ++ received recvs)) s

/-- The connection is not found broken, and the input does not end in the middle of a line. -/
structure Conforms (recvs : List RecvResult) (s : State κ Observation) : Prop where
  whole : Whole recvs s
  rest : (pollableAfter recvs s).isReading = true ∨ leftOver recvs s = []

theorem Law.of_same {t : State κ Observation} (h : Law recvs s)
    (hbuffer : t.conn.inputBuffer = s.conn.inputBuffer)
    (hreports : t.history.reports = s.history.reports) : Law recvs t := by
  refine ⟨?_, ?_, ?_⟩
  · rw [Sound, hreports]
    exact h.sent
  · rw [hbuffer]
    exact h.left
  · rw [hreports]
    exact h.ended

theorem pollableAfter_isDetached :
    (pollableAfter recvs s).isDetached = s.conn.pollable.isDetached := by
  rw [pollableAfter]
  split
  · exact PollableFileDescriptor.disableReadEvent_isDetached _
  · rfl

theorem pollableAfter_isWriting :
    (pollableAfter recvs s).isWriting = s.conn.pollable.isWriting := by
  rw [pollableAfter]
  split
  · exact PollableFileDescriptor.disableReadEvent_isWriting _
  · rfl

/-- Receiving and processing leaves the connection open, unless a line breaks it. -/
theorem receiveAndProcess_ready (hs : Ready s) :
    wp (receiveAndProcess recvs (messageCallback (runWriteComplete script depth)))
      (fun _ t => Whole recvs s ∧ Open (leftOver recvs s) t ∧
          (received recvs ≠ [] → .ended ∈ t.history.reports) ∧
          t.conn.pollable.isReading = (pollableAfter recvs s).isReading ∨
        ¬Whole recvs s ∧ Lost t)
      (fun _ t => ¬Whole recvs s ∧ ¬Law recvs t)
      { s with history.reports := [] } := by
  rw [receiveAndProcess, receiveAllData, wp_bind]
  refine wp_mono (receiveLoop_received hs.input) ?_ fun _ _ h => h.elim
  intro n t ht
  obtain ⟨rfl, b, hvalid, hunread, rfl⟩ := ht
  have hopen : Open b.unread ({ s with
      conn.inputBuffer := b
      conn.pollable := pollableAfter recvs s
      history.reports := [] } : State κ Observation) :=
    ⟨hvalid, rfl, hs.output, hs.callback, fun _ hb => absurd hb List.not_mem_nil⟩
  simp only [wp_ite, wp_pure, Nat.zero_add]
  split
  · rename_i hsome
    have hne : received recvs ≠ [] := fun h => hsome (by rw [h]; rfl)
    have hbreaks : Breaks (lines b.unread) ({ s with
        conn.inputBuffer := b
        conn.pollable := pollableAfter recvs s
        history.reports := [] } : State κ Observation) ↔ ¬Whole recvs s := by
      rw [Breaks, pollableAfter_isDetached, pollableAfter_isWriting, hunread, Whole]
      exact ⟨fun h hwhole => hwhole hne h, fun h => not_not.1 fun hnot => h fun _ => hnot⟩
    have hsize : b.unread.length < b.getReadableSize + 1 := by
      rw [hvalid.length_unread]
      exact Nat.lt_succ_self _
    rw [leftOver, if_neg hne, ← hunread, messageCallback, wp_bind, wp_get]
    refine wp_mono (messageLoop_open hopen List.not_mem_nil hsize) ?_ ?_
    · intro _ v hv
      cases hv with
      | inl hdone =>
        obtain ⟨hnot, htail, hended, hreading⟩ := hdone
        exact .inl ⟨not_not.1 fun h => hnot (hbreaks.2 h), htail, fun _ => hended, hreading⟩
      | inr hlost => exact .inr ⟨hbreaks.1 hlost.1, hlost.2⟩
    · intro _ v hv
      refine ⟨hbreaks.1 hv.1, fun hlaw => ?_⟩
      cases hv.2 with
      | inl hunsound => exact hunsound hlaw.sent
      | inr hrunning => exact hrunning (hlaw.ended hne)
  · rename_i hnone
    have hnil : received recvs = [] := by simpa using hnone
    rw [hnil, List.append_nil] at hunread
    rw [leftOver, if_pos hnil, ← hunread]
    exact .inl ⟨fun hne => absurd hnil hne, hopen, fun hne => absurd hnil hne, rfl⟩

/-- Shutting the write end down does not touch an input buffer that has been released. -/
theorem shutdownWrite_released (hcallback : s.conn.writeCompleteCallback = none)
    (hnull : s.conn.inputBuffer.beginPtrIsNull = true) :
    wp (shutdownWrite (runWriteComplete script depth))
      (fun _ t => t.conn.inputBuffer = s.conn.inputBuffer ∧ t.history.reports = s.history.reports)
      (fun e t => e ≠ .nullPointer ∧ t.conn.inputBuffer = s.conn.inputBuffer ∧
        t.history.reports = s.history.reports) s := by
  have hrelease : s.conn.inputBuffer.release = s.conn.inputBuffer := if_pos hnull
  simp only [shutdownWrite, record, nextShutdown, disableWriteEvent, wp_bind, wp_modify,
    wp_modifyGet, wp_get, wp_ite, wp_pure]
  split
  · exact ⟨trivial, trivial⟩
  split
  · apply abortFromEventLoop_rule
    · exact fun _ _ => ⟨hrelease, rfl⟩
    · intro _ t ht
      exact ⟨by simp, ht.2, by rw [ht.1]⟩
    · intro _ _ m t _ ht
      refine ⟨by simp, ht.2, ?_⟩
      rw [ht.1]
      rfl
  · split
    · simp only [closeEventCallback, detachFromPoller, runCloseCallback, wp_bind, wp_modify]
      rw [wp_runWriteComplete_none]
      · exact ⟨rfl, rfl⟩
      · exact hcallback
    · rw [wp_runWriteComplete_none]
      · exact ⟨rfl, rfl⟩
      · exact hcallback

theorem lawful_iff_conforms (hs : Ready s) : Lawful script depth recvs s ↔ Conforms recvs s := by
  refine wp_iff_of ?_
  rw [readEventCallback, wp_bind]
  refine wp_mono (receiveAndProcess_ready hs) ?_ ?_
  · intro _ t ht
    simp only [wp_bind, wp_get, wp_ite, wp_pure, wp_modify]
    cases ht with
    | inl hkept =>
      obtain ⟨hwhole, hopen, hended, hreading⟩ := hkept
      split
      · rename_i hread
        refine iff_of_true ⟨hopen.sound, fun hnull => ?_, hended⟩ ⟨hwhole, .inl ?_⟩
        · rw [hopen.input.pointer] at hnull
          exact absurd hnull Bool.false_ne_true
        · exact hreading.symm.trans hread
      · rename_i hread
        have hlaw : Law recvs
            { t with conn.inputBuffer := t.conn.inputBuffer.release } ↔ Conforms recvs s := by
          have hsettled := MutableSizeTcpBuffer.settled_release hopen.input
          rw [hopen.unread] at hsettled
          rw [hreading] at hread
          exact ⟨fun h => ⟨hwhole, .inr (hsettled.1 h.left)⟩, fun h =>
            ⟨hopen.sound, hsettled.2 (h.rest.resolve_left hread), hended⟩⟩
        split
        · refine wp_mono (shutdownWrite_released hopen.callback
            (MutableSizeTcpBuffer.release_null _)) ?_ ?_
          · intro _ v hv
            exact ⟨fun h => hlaw.1 (h.of_same hv.1.symm hv.2.symm),
              fun h => (hlaw.2 h).of_same hv.1 hv.2⟩
          · intro _ v hv
            exact ⟨fun h => hlaw.1 (h.1.of_same hv.2.1.symm hv.2.2.symm),
              fun h => ⟨(hlaw.2 h).of_same hv.2.1 hv.2.2, hv.1⟩⟩
        · exact hlaw
    | inr hlost =>
      obtain ⟨hbroken, hlost⟩ := hlost
      have hread := t.conn.pollable.isReading_of_detached hlost.detached
      rw [if_neg (by simp [hread]), if_neg (by simp [hlost.shut])]
      exact iff_of_false (fun h => hlost.unsound h.sent) fun h => hbroken h.whole
  · intro _ t ht
    exact iff_of_false (fun h => ht.2 h.1) fun h => ht.1 h.whole

/-- A connection that listens for reads is ready for them. -/
def Listening (s : State κ Observation) : Prop := s.conn.pollable.isReading = true → Ready s

/-- A connection that listens for reads no more. -/
def Deaf (s : State κ Observation) : Prop := s.conn.pollable.isReading = false

theorem listening_of_deaf (h : Deaf s) : Listening s :=
  fun hread => absurd (hread.symm.trans h) (by decide)

/-- Nothing makes a connection listen for reads again. -/
theorem kept_deaf : Kept (κ := κ) (ρ := Observation) Deaf Deaf Anything := by
  have hstable : Stable (κ := κ) (ρ := Observation) Deaf :=
    { count := fun _ hs => hs
      record := fun _ _ hs => hs
      took := fun _ _ _ hs => hs
      answered := fun _ _ hs => hs
      pollable := fun _ _ hread _ hs => eq_false_of_ne_true fun h => by
        rw [hs] at hread
        exact Bool.false_ne_true (hread h)
      input := fun _ _ hs => hs
      output := fun _ _ _ hs => hs
      closed := fun _ _ hs => hs
      aborted := fun _ _ => PollableFileDescriptor.detachFromPoller_isReading _ }
  exact hstable.kept_of_shut (fun _ _ _ => trivial) fun _ _ hs => hs

theorem runWriteComplete_deaf :
    Keeps Deaf Anything (runWriteComplete (κ := κ) (ρ := Observation) script depth) :=
  kept_deaf.callback (fun _ => id) (fun _ _ _ => id) depth

theorem shutdownWrite_listening (hs : Deaf s) :
    wp (shutdownWrite (runWriteComplete script depth)) (fun _ => Listening) Anything s :=
  wp_mono (kept_deaf.shutdownWrite _ s runWriteComplete_deaf runWriteComplete_deaf hs hs)
    (fun _ _ => listening_of_deaf) fun _ _ => id

theorem messageLoop_deaf (fuel : Nat) :
    Keeps (Deaf (κ := κ)) Anything (messageLoop (runWriteComplete script depth) fuel) := by
  induction fuel with
  | zero => exact fun _ hs => hs
  | succ fuel ih =>
    intro s hs
    simp only [messageLoop, wp_bind, wp_get, wp_liftPure]
    cases s.conn.inputBuffer.getNextNewlinePosition with
    | error e => trivial
    | ok position =>
      cases position with
      | none => exact hs
      | some newlinePosition =>
        have hsend := kept_deaf.send _ (s.conn.inputBuffer.unread.take
          (newlinePosition + 1 - s.conn.inputBuffer.readOffset))
          (@runWriteComplete_deaf κ script depth) s hs
        simp only [ends_ok, wp_bind]
        exact wp_mono hsend (fun _ t ht => ih _ ht) fun _ _ => id

theorem messageCallback_deaf :
    Keeps (Deaf (κ := κ)) Anything (messageCallback (runWriteComplete script depth)) :=
  fun s hs => messageLoop_deaf _ s hs

theorem runWriteComplete_listening :
    Keeps Listening Anything (runWriteComplete (κ := κ) (ρ := Observation) script depth) := by
  intro s hs
  cases hread : s.conn.pollable.isReading with
  | true =>
    rw [wp_runWriteComplete_none (hs hread).callback]
    exact hs
  | false =>
    exact wp_mono (runWriteComplete_deaf s hread) (fun _ _ => listening_of_deaf) fun _ _ => id

/-- At its end, the read event leaves the connection as it has to be for the next one. -/
theorem readEvent_listening (hs : Ready s) (hfresh : s.history.reports = []) :
    wp (readEventCallback (runWriteComplete script depth) recvs
      (messageCallback (runWriteComplete script depth))) (fun _ => Listening) Anything s := by
  have hsame : ({ s with history.reports := [] } : State κ Observation) = s := by
    rw [← hfresh]
  have hprocess := @receiveAndProcess_ready κ s script depth recvs hs
  rw [hsame] at hprocess
  rw [readEventCallback, wp_bind]
  refine wp_mono hprocess ?_ fun _ _ _ => trivial
  intro _ t ht
  simp only [wp_bind, wp_get, wp_ite, wp_pure, wp_modify]
  split
  · rename_i hread
    cases ht with
    | inl hkept =>
      obtain ⟨_, hopen, _⟩ := hkept
      exact fun _ => ⟨hopen.input, hopen.output, hopen.callback⟩
    | inr hlost =>
      have hdeaf := t.conn.pollable.isReading_of_detached hlost.2.detached
      exact listening_of_deaf hdeaf
  · rename_i hread
    have hdeaf : Deaf { t with conn.inputBuffer := t.conn.inputBuffer.release } :=
      eq_false_of_ne_true hread
    split
    · exact shutdownWrite_listening hdeaf
    · exact listening_of_deaf hdeaf

theorem flushAndComplete_listening (hs : Listening s) :
    wp (flushAndComplete (runWriteComplete script depth)) (fun _ => Listening) Anything s := by
  have hflush : wp flushOutput (fun _ => Listening) Anything s := by
    refine flushOutput_rule ?_ ?_ fun _ => hs
    · intro ks n _ hread
      obtain ⟨hinput, houtput, hcallback⟩ := hs hread
      exact ⟨hinput, (MutableSizeTcpBuffer.forwardReadPosition_spec houtput n).1, hcallback⟩
    · intro ks n
      refine wp_abort fun t ht => listening_of_deaf ?_
      exact t.conn.pollable.isReading_of_detached ht
  refine flushAndComplete_rule hflush (fun t ht => ?_) fun _ => id
  refine runWriteComplete_listening _ fun hread => ?_
  rw [PollableFileDescriptor.disableWriteEvent_isReading] at hread
  obtain ⟨hinput, houtput, hcallback⟩ := ht hread
  exact ⟨hinput, houtput, hcallback⟩

theorem writeEvent_listening :
    Keeps Listening Anything
      (writeEventCallback (κ := κ) (ρ := Observation) (runWriteComplete script depth)) := by
  intro s hs
  simp only [writeEventCallback, wp_bind, wp_get, wp_ite, wp_pure]
  split
  · exact hs
  split
  · exact hs
  refine wp_mono (flushAndComplete_listening hs) (fun done t ht => ?_) fun _ _ => id
  cases done with
  | false => exact ht
  | true =>
    simp only [if_true, wp_bind, wp_get, wp_ite, wp_pure]
    split
    · rename_i hidle
      simp only [Bool.and_eq_true, Bool.not_eq_true'] at hidle
      exact shutdownWrite_listening hidle.1
    · exact ht

/-- One turn of the loop that owns the connection: an event, or an abort that another thread has
asked for. What is seen of the message callback starts afresh. -/
inductive Step (script : Nat → List Call) (depth : Nat) (s t : State κ Observation) : Prop where
  | dispatch (kernel : Kernel) (activeEvents : UInt32) (recvs : List RecvResult)
    (h : dispatchActiveEvents (runWriteComplete script depth) activeEvents recvs
      (messageCallback (runWriteComplete script depth))
      { s with kernel := kernel, history.reports := [] } = .ok () t)
  | abort (kernel : Kernel)
    (h : abortFromEventLoop { s with kernel := kernel, history.reports := [] } = .ok () t)

/-- How a read event finds the connection. -/
def Fresh (s : State κ Observation) : Prop := Deaf s ∨ Ready s ∧ s.history.reports = []

theorem dispatch_listening {activeEvents : UInt32} (hs : Listening s)
    (hfresh : s.history.reports = []) :
    wp (dispatchActiveEvents (runWriteComplete script depth) activeEvents recvs
      (messageCallback (runWriteComplete script depth))) (fun _ => Listening) Anything s := by
  have hstart : Fresh s := by
    cases hread : s.conn.pollable.isReading with
    | true => exact .inr ⟨hs hread, hfresh⟩
    | false => exact .inl hread
  have hclose : Deaf { s with conn.pollable := s.conn.pollable.detachFromPoller } :=
    PollableFileDescriptor.detachFromPoller_isReading _
  refine wp_seq (I := Fresh) (Kept.dispatchEvent hstart fun _ => .inl hclose) fun _ t ht => ?_
  refine wp_seq (I := Fresh)
    (Kept.dispatchEvent ht fun _ => show wp errorEventCallback _ _ _ from ht) fun _ t ht => ?_
  have hlistening : Listening t := by
    cases ht with
    | inl hdeaf => exact listening_of_deaf hdeaf
    | inr hready => exact fun _ => hready.1
  refine wp_seq (Kept.dispatchEvent hlistening fun _ => ?_) fun _ t ht => ?_
  · cases ht with
    | inl hdeaf =>
      have hprocess := kept_deaf.process (@messageCallback_deaf κ script depth) recvs t hdeaf
      exact wp_mono (kept_deaf.readEvent runWriteComplete_deaf runWriteComplete_deaf hprocess)
        (fun _ _ => listening_of_deaf) fun _ _ => id
    | inr hready => exact readEvent_listening hready.1 hready.2
  · exact Kept.dispatchEvent ht fun _ => writeEvent_listening t ht

/-- In any run, a connection that listens for reads is ready for them. -/
theorem reaches_listening {timeStamp : Int} {context : Option κ}
    (hr : Reaches (Step script depth) (started timeStamp context none) s) : Listening s := by
  refine hr.invariant (fun _ => ?_) ?_
  · exact ⟨MutableSizeTcpBuffer.valid_new, MutableSizeTcpBuffer.valid_new, rfl⟩
  · intro a b ha hstep
    cases hstep with
    | dispatch kernel activeEvents recvs h =>
      have ha' : Listening { a with kernel := kernel, history.reports := [] } := by
        intro hread
        obtain ⟨hinput, houtput, hcallback⟩ := ha hread
        exact ⟨hinput, houtput, hcallback⟩
      exact wp_of_ok (dispatch_listening ha' rfl) h
    | abort kernel h =>
      refine wp_of_ok (wp_abort (Q := fun _ => Listening) fun t ht => listening_of_deaf ?_) h
      exact t.conn.pollable.isReading_of_detached ht

/-- In any run of the echo server, a read event leaves the buffers as they should be left exactly
if the connection is not found broken in the middle of it and the input does not end in the middle
of a line. A close event of the same turn comes before the read event. -/
theorem readEvent_lawful_iff {timeStamp : Int} {context : Option κ} {kernel : Kernel}
    {activeEvents : UInt32} {t : State κ Observation}
    (hr : Reaches (Step script depth) (started timeStamp context none) s)
    (hread : s.conn.pollable.isReading = true)
    (hclose : dispatchEvent activeEvents eventTypeClose closeEventCallback
      { s with kernel := kernel } = .ok () t) :
    Lawful script depth recvs t ↔ Conforms recvs t := by
  have hready := reaches_listening hr hread
  have hclosed : wp (dispatchEvent activeEvents eventTypeClose closeEventCallback)
      (fun _ => Ready) Anything { s with kernel := kernel } :=
    Kept.dispatchEvent ⟨hready.input, hready.output, hready.callback⟩ fun _ =>
      ⟨hready.input, hready.output, hready.callback⟩
  exact lawful_iff_conforms (wp_of_ok hclosed hclose)

/-- The second line has to wait behind the rest of the first. -/
theorem readEvent_lawful_of_waiting :
    Lawful (fun _ => []) 0 [.read (bytes "ab\nc\nd"), .error .EAGAIN]
      ({ started 0 (some ()) none with
          kernel := ⟨[.accepted 1, .error .EAGAIN], [], []⟩ } : State Unit Observation) := by
  have hclose : dispatchEvent epollIn eventTypeClose closeEventCallback
      ({ started 0 (some ()) none with
          kernel := ⟨[.accepted 1, .error .EAGAIN], [], []⟩ } : State Unit Observation) =
      .ok () { started 0 (some ()) none with
          kernel := ⟨[.accepted 1, .error .EAGAIN], [], []⟩ } := rfl
  exact (readEvent_lawful_iff .refl rfl hclose).2
    ⟨fun _ h => absurd h.2.2 (by decide), .inl rfl⟩

/-- The peer is gone when the first of two lines is sent. The connection is reset, its input
buffer released, and the search for the next line goes through the null pointer. -/
theorem not_lawful_of_brokenPipe :
    (∃ t, readEventCallback (runWriteComplete (fun _ => []) 0) [.read (bytes "a\nb\n")]
      (messageCallback (runWriteComplete (fun _ => []) 0))
      ({ started 0 (some ()) none with kernel := ⟨[.error .EPIPE], [], []⟩ } :
        State Unit Observation) = .error .nullPointer t) ∧
    ¬Lawful (fun _ => []) 0 [.read (bytes "a\nb\n")]
      ({ started 0 (some ()) none with kernel := ⟨[.error .EPIPE], [], []⟩ } :
        State Unit Observation) := by
  have hrun : ∃ t, readEventCallback (runWriteComplete (fun _ => []) 0) [.read (bytes "a\nb\n")]
      (messageCallback (runWriteComplete (fun _ => []) 0))
      ({ started 0 (some ()) none with kernel := ⟨[.error .EPIPE], [], []⟩ } :
        State Unit Observation) = .error .nullPointer t := ⟨_, rfl⟩
  refine ⟨hrun, fun h => ?_⟩
  obtain ⟨t, ht⟩ := hrun
  exact (wp_of_error h ht).2 rfl

end XubinhServer.EchoServer

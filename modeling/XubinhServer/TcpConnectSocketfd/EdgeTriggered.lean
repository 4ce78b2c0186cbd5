import XubinhServer.TcpConnectSocketfd.Sending

/-! The socket of a connection is polled edge-triggered: `epoll` reports what becomes ready, and
says nothing of what has been left ready. A connection that reads until there is nothing left, and
waits for a write event only when the kernel has refused its data, does not miss anything. -/
namespace XubinhServer.TcpConnectSocketfd

open Halting EventPoller Transition

variable {κ ρ : Type} {s t : State κ ρ} {script : Nat → List Call} {depth : Nat}
  {answers : List SendResult} {waiting waiting' : Prop}

/-- The kernel has no room for more data. -/
def isFull : SendResult → Bool
  | .error .EAGAIN | .error .EWOULDBLOCK => true
  | _ => false

/-- Of `answers`, some have been used. If the connection waits for a write event, the last of them
was that the kernel has no room, unless it was `waiting` before and has not used any. -/
def Waits (answers : List SendResult) (waiting : Prop) (s : State κ ρ) : Prop :=
  ∃ used, answers = used ++ s.kernel.sends ∧
    (s.conn.pollable.isWriting = true → used = [] ∧ waiting ∨ used.getLast?.any isFull = true)

/-- The answers that the loop of `_send_as_many_data` uses. -/
theorem sendEnd_used (length : Nat) (sends : List SendResult) (sent : Nat) :
    ∃ used, sends = used ++ (sendEnd length sends sent).2 ∧
      ((sendEnd length sends sent).1 = .later → used.getLast?.any isFull = true) := by
  induction sends generalizing sent with
  | nil => exact ⟨[], rfl, fun h => by cases h⟩
  | cons answer rest ih =>
    have hstop : answer :: rest = [answer] ++ rest := rfl
    have hmore : ∀ sent', ∃ used, answer :: rest = used ++ (sendEnd length rest sent').2 ∧
        ((sendEnd length rest sent').1 = .later → used.getLast?.any isFull = true) := by
      intro sent'
      obtain ⟨used, hused, hlater⟩ := ih sent'
      refine ⟨answer :: used, congrArg (answer :: ·) hused, fun h => ?_⟩
      have hlast := hlater h
      cases used with
      | nil => cases hlast
      | cons _ _ => rwa [List.getLast?_cons_cons]
    unfold sendEnd
    split
    · cases answer with
      | accepted count => exact hmore _
      | error errno =>
        cases errno with
        | EAGAIN => exact ⟨[_], hstop, fun _ => rfl⟩
        | EWOULDBLOCK => exact ⟨[_], hstop, fun _ => rfl⟩
        | EPIPE => exact ⟨[_], hstop, fun h => by cases h⟩
        | ENOTCONN => exact hmore _
        | other code => exact hmore _
    · exact ⟨[], rfl, fun h => by cases h⟩

theorem Waits.of_idle (h : Waits answers waiting s) (hsends : t.kernel.sends = s.kernel.sends)
    (hidle : t.conn.pollable.isWriting = false) : Waits answers waiting' t := by
  obtain ⟨used, hused, _⟩ := h
  refine ⟨used, hsends ▸ hused, fun hwriting => ?_⟩
  rw [hidle] at hwriting
  cases hwriting

theorem Waits.of_same (h : Waits answers waiting s) (hsends : t.kernel.sends = s.kernel.sends)
    (hwriting : t.conn.pollable.isWriting = s.conn.pollable.isWriting) :
    Waits answers waiting t := by
  obtain ⟨used, hused, hwaits⟩ := h
  exact ⟨used, hsends ▸ hused, hwriting ▸ hwaits⟩

theorem Waits.of_detached (h : Waits answers waiting s) (hsends : t.kernel.sends = s.kernel.sends)
    (hd : t.conn.pollable.isDetached = true) : Waits answers waiting' t :=
  h.of_idle hsends (PollableFileDescriptor.isWriting_of_detached _ hd)

theorem abort_waits (h : Waits answers waiting s) :
    wp abortFromEventLoop (fun _ => Waits answers waiting') Anything s :=
  abortFromEventLoop_rule
    (fun _ _ => h.of_detached rfl (PollableFileDescriptor.detachFromPoller_isDetached _))
    (fun _ _ _ => trivial) fun _ _ _ _ _ _ => trivial

/-- What `_send_as_many_data` has used when it ends. -/
theorem sendAsManyData_waits {Q : Nat → State κ ρ → Prop} {data : List UInt8}
    (h : Waits answers waiting s)
    (hall : ∀ rest taken used, answers = used ++ rest → Q data.length (s.took rest taken))
    (hlater : ∀ rest taken used n, n < data.length → answers = used ++ rest →
      used.getLast?.any isFull = true → Q n (s.took rest taken))
    (hbroken : ∀ u, Waits answers False u → Q data.length u) :
    wp (sendAsManyData data) Q Anything s := by
  obtain ⟨before, hbefore, _⟩ := h
  unfold sendAsManyData
  simp only [wp_ite, wp_bind, wp_get, wp_pure]
  split
  · rename_i hnil
    have hsame := hall s.kernel.sends [] before hbefore
    rw [State.took_nil, hnil] at hsame
    exact hsame
  · obtain ⟨used, hused, hlast⟩ := sendEnd_used data.length s.kernel.sends 0
    have hanswers : answers = (before ++ used) ++ (sendEnd data.length s.kernel.sends 0).2 := by
      rw [List.append_assoc, ← hused, hbefore]
    refine sendLoop_ends rfl (Nat.zero_le _) ⟨fun _ taken => ?_, fun hr n hn taken => ?_,
      fun _ taken => ?_⟩
    · exact hall _ taken _ hanswers
    · refine hlater _ taken _ n hn hanswers ?_
      have hfull := hlast hr
      cases hget : used.getLast? with
      | none =>
        rw [hget] at hfull
        cases hfull
      | some answer =>
        rw [hget] at hfull
        rw [List.getLast?_append, hget]
        exact hfull
    · refine abortFromEventLoop_rule (fun _ _ => ?_) (fun _ _ _ => trivial)
        fun _ _ _ _ _ _ => trivial
      refine hbroken _ ⟨_, hanswers, fun hwriting => ?_⟩
      have hidle := PollableFileDescriptor.isWriting_of_detached
        s.conn.pollable.detachFromPoller (PollableFileDescriptor.detachFromPoller_isDetached _)
      exact absurd (hidle.symm.trans hwriting) (by decide)

section Callbacks
variable {writeComplete messageCallback : Comp κ ρ Unit} {data : List UInt8}

theorem send_waits (hw : Keeps (Waits answers waiting) Anything writeComplete) :
    Keeps (Waits answers waiting) Anything (send writeComplete data) := by
  intro s hs
  simp only [send, record, wp_bind, wp_modify, wp_get, wp_ite, wp_pure]
  split
  · exact hs.of_same rfl rfl
  · split
    · exact wp_appendOutput (fun _ _ => hs.of_same rfl rfl) trivial
    · rename_i hidle
      refine sendAsManyData_waits (hs.of_same rfl rfl) ?_ ?_ ?_
      · intro rest taken used hused
        rw [if_pos rfl]
        exact hw _ ⟨used, hused, fun hwriting => absurd hwriting hidle⟩
      · intro rest taken used n hn hused hfull
        rw [if_neg (Nat.ne_of_lt hn), wp_bind]
        refine wp_appendOutput (fun b _ => ?_) trivial
        exact ⟨used, hused, fun _ => .inr hfull⟩
      · intro u hu
        obtain ⟨used, hused, hwaits⟩ := hu
        rw [if_pos rfl]
        exact hw u ⟨used, hused, fun hwriting => .inr ((hwaits hwriting).resolve_left And.right)⟩

theorem shutdownWrite_waits (hw : Keeps (Waits answers waiting) Anything writeComplete) :
    Keeps (Waits answers waiting) Anything (shutdownWrite writeComplete) := by
  intro s hs
  simp only [shutdownWrite, record, nextShutdown, closeEventCallback, detachFromPoller,
    runCloseCallback, disableWriteEvent, wp_bind, wp_modify, wp_modifyGet, wp_get, wp_ite, wp_pure]
  split
  · exact hs.of_same rfl rfl
  split
  · exact abort_waits (hs.of_same rfl rfl)
  split
  · refine wp_mono (hw _ (hs.of_idle rfl (by simp))) (fun _ t ht => ?_) fun _ _ => id
    exact ht.of_same rfl rfl
  · refine wp_mono (hw _ (hs.of_idle rfl (by simp))) (fun _ t ht => ?_) fun _ _ => id
    exact ht.of_same rfl rfl

/-- Behind a flush, a connection waits only if the kernel has refused what is left. -/
theorem flushAndComplete_waits (hs : Waits answers waiting s)
    (hw : Keeps (Waits answers waiting') Anything writeComplete) :
    wp (flushAndComplete writeComplete) (fun _ => Waits answers waiting') Anything s := by
  have hflush : wp flushOutput (fun done t => (∃ used, answers = used ++ t.kernel.sends) ∧
      (done = false → Waits answers waiting' t)) Anything s := by
    simp only [flushOutput, wp_bind, wp_get, wp_ite, wp_pure]
    split
    · refine sendAsManyData_waits hs ?_ ?_ ?_
      · intro rest taken used hused
        exact ⟨⟨used, hused⟩, fun hrest => by simp at hrest⟩
      · intro rest taken used n _ hused hfull
        exact ⟨⟨used, hused⟩, fun _ => ⟨used, hused, fun _ => .inr hfull⟩⟩
      · intro u hu
        obtain ⟨used, hused, _⟩ := hu
        exact ⟨⟨used, hused⟩, fun hrest => by simp at hrest⟩
    · obtain ⟨used, hused, _⟩ := hs
      exact ⟨⟨used, hused⟩, fun hrest => by cases hrest⟩
  refine flushAndComplete_rule hflush (fun t ht => ?_) fun t ht => ht.2 rfl
  obtain ⟨⟨used, hused⟩, _⟩ := ht
  exact hw _ ⟨used, hused, fun hwriting => by simp at hwriting⟩

end Callbacks

theorem kept_waits : Kept (κ := κ) (ρ := ρ) (Waits answers waiting) (Waits answers waiting)
    Anything where
  halt _ _ _ _ := trivial
  count _ hs := hs.of_same rfl rfl
  disableRead _ hs := hs.of_same rfl (by simp)
  input _ _ hs := hs.of_same rfl rfl
  send _ _ hw := send_waits hw
  shutdownWrite _ s _ hw _ hs := shutdownWrite_waits hw s hs
  flush _ _ hw hs _ _ := flushAndComplete_waits hs hw
  closure _ hs _ := hs
  finished _ hs _ := hs

theorem runWriteComplete_waits :
    Keeps (Waits answers waiting) Anything (runWriteComplete (κ := κ) (ρ := ρ) script depth) :=
  kept_waits.callback (fun _ => id) (fun _ _ _ => id) depth

/-- A write event leaves an open connection waiting only if the kernel has refused what is left. -/
theorem writeEvent_waits (hs : Waits answers waiting s) :
    wp (writeEventCallback (runWriteComplete script depth))
      (fun _ t => t.conn.isWriteEndShutdown = true ∨ Waits answers False t) Anything s := by
  simp only [writeEventCallback, wp_bind, wp_get, wp_ite, wp_pure]
  split
  · rename_i hd
    exact .inr (hs.of_detached rfl hd)
  split
  · rename_i hshut
    exact .inl hshut
  have hflush : wp (flushAndComplete (runWriteComplete script depth))
      (fun _ => Waits answers False) Anything s :=
    flushAndComplete_waits hs runWriteComplete_waits
  refine wp_mono hflush (fun done t ht => ?_) fun _ _ => id
  cases done with
  | false => exact .inr ht
  | true =>
    simp only [if_true, wp_bind, wp_get, wp_ite, wp_pure]
    split
    · exact wp_mono (shutdownWrite_waits runWriteComplete_waits t ht) (fun _ _ => .inr)
        fun _ _ => id
    · exact .inr ht

/-- What a dispatch leaves. -/
theorem dispatch_waits {messageCallback : Comp κ ρ Unit} {activeEvents : UInt32}
    {recvs : List RecvResult} (hs : Waits answers waiting s)
    (hm : Keeps (Waits answers waiting) Anything messageCallback) :
    wp (dispatchActiveEvents (runWriteComplete script depth) activeEvents recvs messageCallback)
      (fun _ t => t.conn.isWriteEndShutdown = true ∨
        Waits answers (waiting ∧ has activeEvents eventTypeWrite = false) t) Anything s := by
  have hclose : wp closeEventCallback (fun _ => Waits answers waiting) Anything s :=
    hs.of_detached rfl (PollableFileDescriptor.detachFromPoller_isDetached _)
  refine wp_seq (Kept.dispatchEvent hs fun _ => hclose) fun _ t ht => ?_
  refine wp_seq (Kept.dispatchEvent ht fun _ => show wp errorEventCallback _ _ _ from ht)
    fun _ t ht => ?_
  refine wp_seq (Kept.dispatchEvent ht fun _ => kept_waits.readEvent runWriteComplete_waits
    runWriteComplete_waits (kept_waits.process hm recvs t ht)) fun _ t ht => ?_
  obtain ⟨used, hused, hwaits⟩ := ht
  simp only [dispatchEvent, wp_ite, wp_pure]
  split
  · refine wp_mono (writeEvent_waits ⟨used, hused, hwaits⟩) (fun _ u hu => ?_) fun _ _ => id
    refine hu.imp_right fun hu => ?_
    obtain ⟨used', hused', hwaits'⟩ := hu
    exact ⟨used', hused', fun hwriting => .inr ((hwaits' hwriting).resolve_left And.right)⟩
  · rename_i hquiet
    refine .inr ⟨used, hused, fun hwriting => (hwaits hwriting).imp_left fun hbefore => ?_⟩
    exact ⟨hbefore.1, hbefore.2, by simpa using hquiet⟩

/-- A connection that reads no more does not read again. -/
theorem kept_notReading : Kept (κ := κ) (ρ := ρ) (fun s => s.conn.pollable.isReading = false)
    (fun s => s.conn.pollable.isReading = false) Anything := by
  have hstable : Stable (κ := κ) (ρ := ρ) fun s => s.conn.pollable.isReading = false :=
    { count := fun _ hs => hs
      record := fun _ _ hs => hs
      took := fun _ _ _ hs => hs
      answered := fun _ _ hs => hs
      pollable := fun s p hr _ hs => by
        by_contra hp
        rw [hr (by simpa using hp)] at hs
        cases hs
      input := fun _ _ hs => hs
      output := fun _ _ _ hs => hs
      closed := fun _ _ hs => hs
      aborted := fun _ _ => PollableFileDescriptor.isReading_of_detached _
        (PollableFileDescriptor.detachFromPoller_isDetached _) }
  exact hstable.kept_of_shut (fun _ _ _ => trivial) fun _ _ => id

theorem receiveLoop_ended {recvs : List RecvResult} {total : Nat}
    (h : endsStream recvs = true) :
    wp (receiveLoop recvs total) (fun _ t => t.conn.pollable.isReading = false) Anything s := by
  induction recvs generalizing s total with
  | nil => cases h
  | cons answer rest ih =>
    rw [endsStream.eq_def] at h
    cases answer with
    | read data =>
      simp only [receiveLoop, wp_ite, wp_bind, disableReadEvent, wp_modify, wp_pure]
      split
      · rename_i hdata
        dsimp only at h
        rw [if_pos hdata] at h
        exact wp_appendInput (fun _ _ => ih h) trivial
      · exact PollableFileDescriptor.disableReadEvent_isReading _
    | error errno =>
      cases errno with
      | EAGAIN => cases h
      | EWOULDBLOCK => cases h
      | EPIPE => exact ih h
      | ENOTCONN => exact ih h
      | other code => exact ih h

/-- Behind a dispatch, a connection that still reads has read before, and has not been told that
the stream is at its end. -/
theorem dispatch_reading {messageCallback : Comp κ ρ Unit} {activeEvents : UInt32}
    {recvs : List RecvResult}
    (hm : Keeps (fun s => s.conn.pollable.isReading = false) Anything messageCallback)
    (h : s.conn.pollable.isReading = false ∨
      has activeEvents eventTypeRead = true ∧ endsStream recvs = true) :
    wp (dispatchActiveEvents (runWriteComplete script depth) activeEvents recvs messageCallback)
      (fun _ t => t.conn.pollable.isReading = false) Anything s := by
  have hw : Keeps (fun s => s.conn.pollable.isReading = false) Anything
      (runWriteComplete (κ := κ) (ρ := ρ) script depth) :=
    kept_notReading.callback (fun _ => id) (fun _ _ _ => id) depth
  let Ends : State κ ρ → Prop := fun t => t.conn.pollable.isReading = false ∨
    has activeEvents eventTypeRead = true ∧ endsStream recvs = true
  have hclose : wp closeEventCallback (fun _ => Ends) Anything s :=
    .inl (PollableFileDescriptor.isReading_of_detached _
      (PollableFileDescriptor.detachFromPoller_isDetached _))
  refine wp_seq (I := Ends) (Kept.dispatchEvent h fun _ => hclose) fun _ t ht => ?_
  refine wp_seq (I := Ends)
    (Kept.dispatchEvent ht fun _ => show wp errorEventCallback _ _ _ from ht) fun _ t ht => ?_
  have hread : wp (TcpConnectSocketfd.dispatchEvent activeEvents eventTypeRead
      (readEventCallback (runWriteComplete script depth) recvs messageCallback))
      (fun _ t => t.conn.pollable.isReading = false) Anything t := by
    cases ht with
    | inl hquiet =>
      exact Kept.dispatchEvent hquiet fun _ =>
        kept_notReading.readEvent hw hw (kept_notReading.process hm recvs t hquiet)
    | inr hended =>
      simp only [TcpConnectSocketfd.dispatchEvent, if_pos hended.1]
      refine kept_notReading.readEvent hw hw (wp_seq (receiveLoop_ended hended.2) ?_)
      intro total v hv
      simp only [wp_ite, wp_pure]
      split
      · exact hm v hv
      · exact hv
  refine wp_seq hread fun _ t ht => ?_
  exact Kept.dispatchEvent ht fun _ => kept_notReading.writeEvent hw hw t ht

/-- What the kernel has for a socket: the bytes that have arrived, whether they are the last ones,
whether it has no room for more data, and whether `epoll` is going to report the socket. -/
structure Socket where
  incoming : List UInt8
  ended : Bool
  full : Bool
  pending : Bool

namespace Socket

def readable (k : Socket) : Bool := !k.incoming.isEmpty || k.ended

/-- An edge is not reported to a connection that does not listen for it. -/
def arrive (k : Socket) (s : State κ ρ) (data : List UInt8) : Socket :=
  { k with incoming := k.incoming ++ data, pending := k.pending || s.conn.pollable.isReading }

def finish (k : Socket) (s : State κ ρ) : Socket :=
  { k with ended := true, pending := k.pending || s.conn.pollable.isReading }

/-- There is room again. -/
def drain (k : Socket) (s : State κ ρ) : Socket :=
  { k with full := false, pending := k.pending || s.conn.pollable.isWriting }

/-- The report of `epoll`, and what `::recv` brings then, until nothing is left. -/
structure Reports (k : Socket) (s : State κ ρ) (activeEvents : UInt32) (recvs : List RecvResult) :
    Prop where
  pending : k.pending = true
  read : has activeEvents eventTypeRead = (s.conn.pollable.isReading && k.readable)
  write : has activeEvents eventTypeWrite = (s.conn.pollable.isWriting && !k.full)
  received : has activeEvents eventTypeRead = true →
    received recvs = k.incoming ∧ endsStream recvs = k.ended

def reported (k : Socket) (activeEvents : UInt32) : Socket :=
  { k with
    incoming := if has activeEvents eventTypeRead then [] else k.incoming
    pending := false }

/-- The last of the answers that have been used says whether there is room. If the connection
begins to listen for write events, `epoll` looks at once whether there is one. -/
def after (k : Socket) (s t : State κ ρ) (answers : List SendResult) : Socket :=
  let used := answers.take (answers.length - t.kernel.sends.length)
  let full := (used.getLast?.map isFull).getD k.full
  { k with
    full := full
    pending := k.pending || (t.conn.pollable.isWriting && !s.conn.pollable.isWriting && !full) }

/-- What the connection can still do something about, `epoll` is going to report. -/
structure Watched (k : Socket) (s : State κ ρ) : Prop where
  reads : s.conn.pollable.isReading = true → k.pending = true ∨ k.readable = false
  writes : s.conn.isWriteEndShutdown = false → s.conn.pollable.isWriting = true →
    k.pending = true ∨ k.full = true

variable {k : Socket} {activeEvents : UInt32} {recvs : List RecvResult}

/-- What a socket reports has been sent by the other side. -/
theorem Reports.received_prefix {sent input : List UInt8}
    (hreports : k.Reports s activeEvents recvs) (h : input ++ k.incoming <+: sent) :
    (input ++ if has activeEvents eventTypeRead then TcpConnectSocketfd.received recvs else []) ++
      (k.reported activeEvents).incoming <+: sent := by
  cases hread : has activeEvents eventTypeRead with
  | true =>
    rw [reported, if_pos rfl, (hreports.received hread).1]
    simpa [hread] using h
  | false => simpa [reported, hread] using h

theorem Reports.isReading (hreports : k.Reports s activeEvents recvs)
    (hread : has activeEvents eventTypeRead = true) : s.conn.pollable.isReading = true := by
  have hboth := hreports.read
  rw [hread] at hboth
  simp only [Bool.true_eq, Bool.and_eq_true] at hboth
  exact hboth.1

theorem Watched.arrive (h : Watched k s) (data : List UInt8) : Watched (k.arrive s data) s where
  reads hreading := .inl (by simp [Socket.arrive, hreading])
  writes ho hwriting := (h.writes ho hwriting).imp_left fun hp => by simp [Socket.arrive, hp]

theorem Watched.finish (h : Watched k s) : Watched (k.finish s) s where
  reads hreading := .inl (by simp [Socket.finish, hreading])
  writes ho hwriting := (h.writes ho hwriting).imp_left fun hp => by simp [Socket.finish, hp]

theorem Watched.drain (h : Watched k s) : Watched (k.drain s) s where
  reads hreading := (h.reads hreading).imp_left fun hp => by simp [Socket.drain, hp]
  writes _ hwriting := .inl (by simp [Socket.drain, hwriting])

/-- A connection that waits behind its last answer has been told so by it. -/
theorem full_after (hwaits : Waits answers waiting t)
    (hwriting : t.conn.pollable.isWriting = true) :
    (k.after s t answers).full = true ∨ (k.after s t answers).full = k.full ∧ waiting := by
  obtain ⟨used, hused, hwaits⟩ := hwaits
  have htake : answers.take (answers.length - t.kernel.sends.length) = used := by
    rw [hused, List.length_append, Nat.add_sub_cancel, List.take_left]
  rw [after, htake]
  cases hwaits hwriting with
  | inl hsame =>
    obtain ⟨rfl, hwaiting⟩ := hsame
    exact .inr ⟨rfl, hwaiting⟩
  | inr hfull =>
    left
    cases hget : used.getLast? with
    | none =>
      rw [hget] at hfull
      cases hfull
    | some answer =>
      rw [hget] at hfull
      exact hfull

theorem Watched.call (h : Watched k s)
    (hwaits : Waits answers (s.conn.pollable.isWriting = true) t)
    (hshut : s.conn.isWriteEndShutdown = true → t.conn.isWriteEndShutdown = true)
    (hreading : s.conn.pollable.isReading = false → t.conn.pollable.isReading = false) :
    Watched (k.after s t answers) t where
  reads hr := by
    have hbefore : s.conn.pollable.isReading = true := by
      by_contra hquiet
      rw [hreading (by simpa using hquiet)] at hr
      cases hr
    exact (h.reads hbefore).imp (fun hp => by simp [after, hp]) id
  writes ho hwriting := by
    have hopen : s.conn.isWriteEndShutdown = false := by
      by_contra hclosed
      rw [hshut (by simpa using hclosed)] at ho
      cases ho
    cases full_after (k := k) (s := s) hwaits hwriting with
    | inl hfull => exact .inr hfull
    | inr hsame =>
      obtain ⟨hsame, hbefore⟩ := hsame
      cases h.writes hopen hbefore with
      | inl hp => exact .inl (by simp [after, hp])
      | inr hfull => exact .inr (hsame.trans hfull)

theorem Watched.dispatch (hreports : k.Reports s activeEvents recvs)
    (hwaits : t.conn.isWriteEndShutdown = true ∨ Waits answers
      (s.conn.pollable.isWriting = true ∧ has activeEvents eventTypeWrite = false) t)
    (hreading : s.conn.pollable.isReading = false ∨
      has activeEvents eventTypeRead = true ∧ endsStream recvs = true →
        t.conn.pollable.isReading = false) :
    Watched ((k.reported activeEvents).after s t answers) t where
  reads hr := by
    right
    have hstill : ¬(s.conn.pollable.isReading = false ∨
        has activeEvents eventTypeRead = true ∧ endsStream recvs = true) := by
      intro hends
      rw [hreading hends] at hr
      cases hr
    rw [not_or, Bool.not_eq_false] at hstill
    obtain ⟨hbefore, hgoes⟩ := hstill
    have hread := hreports.read
    rw [hbefore, Bool.true_and] at hread
    cases hreadable : k.readable with
    | true =>
      rw [hreadable] at hread
      have hended : k.ended = false := by
        rw [← (hreports.received hread).2]
        by_contra hend
        exact hgoes ⟨hread, by simpa using hend⟩
      simp [after, reported, readable, hread, hended]
    | false =>
      rw [hreadable] at hread
      rw [readable] at hreadable
      simpa [after, reported, readable, hread] using hreadable
  writes ho hwriting := by
    right
    have hwaits := hwaits.resolve_left (by simp [ho])
    cases full_after (k := k.reported activeEvents) (s := s) hwaits hwriting with
    | inl hfull => exact hfull
    | inr hsame =>
      obtain ⟨hsame, hbefore, hquiet⟩ := hsame
      have hwrite := hreports.write
      rw [hquiet, hbefore] at hwrite
      rw [hsame, reported]
      simpa using hwrite

theorem Watched.read_all (h : Watched k s) (hreading : s.conn.pollable.isReading = true)
    (hquiet : k.pending = false) : k.incoming = [] ∧ k.ended = false := by
  have hnone := (h.reads hreading).resolve_left (by simp [hquiet])
  simpa [readable] using hnone

theorem Watched.isWriting (h : Watched k s) (ho : s.conn.isWriteEndShutdown = false)
    (hquiet : k.pending = false) (hroom : k.full = false) :
    s.conn.pollable.isWriting = false := by
  by_contra hwriting
  have hwaits := h.writes ho (by simpa using hwriting)
  rw [hquiet, hroom] at hwaits
  simp at hwaits

end Socket

/-- The connection is open in both directions. -/
structure Opened (s : State κ ρ) : Prop where
  reading : s.conn.pollable.isReading = true
  writable : s.conn.isWriteEndShutdown = false

/-- On an open connection that has nothing to do, all is read and all is sent. -/
theorem Socket.Watched.idle {k : Socket} {sent : List UInt8} (h : k.Watched s) (hopen : Opened s)
    (hsends : Over sent s ∨ Sending sent s) (hquiet : k.pending = false) (hroom : k.full = false) :
    k.incoming = [] ∧ s.history.accepted = sent := by
  have hidle := h.isWriting hopen.writable hquiet hroom
  have hattached := s.conn.pollable.reading_attached hopen.reading
  exact ⟨(h.read_all hopen.reading hquiet).1,
    accepted_of_idle hsends hattached hopen.writable hidle⟩

/-- What the kernel has taken, it does not give back. -/
theorem kept_taken {data : List UInt8} : Kept (κ := κ) (ρ := ρ)
    (fun s => data <+: s.history.accepted) (fun s => data <+: s.history.accepted) Anything := by
  have hstable : Stable (κ := κ) (ρ := ρ) fun s => data <+: s.history.accepted :=
    { count := fun _ hs => hs
      record := fun _ _ hs => hs
      took := fun _ _ _ hs => hs.trans (List.prefix_append _ _)
      answered := fun _ _ hs => hs
      pollable := fun _ _ _ _ hs => hs
      input := fun _ _ hs => hs
      output := fun _ _ _ hs => hs
      closed := fun _ _ hs => hs
      aborted := fun _ hs => hs }
  exact hstable.kept_of_shut (fun _ _ _ => trivial) fun _ _ => id

theorem kept_shut : Kept (κ := κ) (ρ := ρ) (fun s => s.conn.isWriteEndShutdown = true)
    (fun s => s.conn.isWriteEndShutdown = true) Anything := by
  have hstable : Stable (κ := κ) (ρ := ρ) fun s => s.conn.isWriteEndShutdown = true :=
    { count := fun _ hs => hs
      record := fun _ _ hs => hs
      took := fun _ _ _ hs => hs
      answered := fun _ _ hs => hs
      pollable := fun _ _ _ _ hs => hs
      input := fun _ _ hs => hs
      output := fun _ _ _ hs => hs
      closed := fun _ _ hs => hs
      aborted := fun _ _ => rfl }
  exact hstable.kept_of_shut (fun _ _ _ => trivial) fun _ _ _ => rfl

/-- A connection and its socket. -/
structure Polled (κ ρ : Type) where
  state : State κ ρ
  socket : Socket

/-- Data arrives or leaves, the peer goes, the owner calls, or `epoll` reports. The kernel has an
answer for each `::send`. -/
inductive Polled.Step (script : Nat → List Call) (depth : Nat) : Polled κ ρ → Polled κ ρ → Prop
  | arrive {s k} (data : List UInt8) : Step script depth ⟨s, k⟩ ⟨s, k.arrive s data⟩
  | finish {s k} : Step script depth ⟨s, k⟩ ⟨s, k.finish s⟩
  | drain {s k} : Step script depth ⟨s, k⟩ ⟨s, k.drain s⟩
  | hangUp {s k} : Step script depth ⟨s, k⟩ ⟨s, { k with pending := true }⟩
  | call {s t k} (kernel : Kernel) (call : Call) (hanswers : t.kernel.sends ≠ [])
      (h : runCall (runWriteComplete script depth) call { s with kernel := kernel } = .ok () t) :
      Step script depth ⟨s, k⟩ ⟨t, k.after s t kernel.sends⟩
  | dispatch {s t k} (kernel : Kernel) (activeEvents : UInt32) (recvs : List RecvResult)
      (consumed : Nat) (calls : List Call) (hreports : k.Reports s activeEvents recvs)
      (hanswers : t.kernel.sends ≠ [])
      (h : dispatchActiveEvents (runWriteComplete script depth) activeEvents recvs
        (userMessageCallback (runWriteComplete script depth) consumed calls)
        { s with kernel := kernel } = .ok () t) :
      Step script depth ⟨s, k⟩ ⟨t, (k.reported activeEvents).after s t kernel.sends⟩

/-- `epoll` looks at once at what it is to watch. -/
def Socket.registered (incoming : List UInt8) (ended : Bool) : Socket :=
  ⟨incoming, ended, false, !incoming.isEmpty || ended⟩

variable {p q : Polled κ ρ}

theorem waits_of_start (s : State κ ρ) :
    Waits s.kernel.sends (s.conn.pollable.isWriting = true) s :=
  ⟨[], rfl, fun hwriting => .inl ⟨rfl, hwriting⟩⟩

section Runs
variable {I : State κ ρ → Prop}

theorem Kept.runWriteComplete (h : Kept I I Anything) :
    Keeps I Anything (TcpConnectSocketfd.runWriteComplete script depth) :=
  h.callback (fun _ => id) (fun _ _ _ => id) depth

theorem Kept.runCall (h : Kept I I Anything) (call : Call) :
    Keeps I Anything (runCall (TcpConnectSocketfd.runWriteComplete script depth) call) := by
  intro s hs
  cases call with
  | send data => exact h.send _ data h.runWriteComplete s hs
  | shutdownWrite => exact h.shutdownWrite _ s h.runWriteComplete h.runWriteComplete hs hs

theorem Kept.userCallback (h : Kept I I Anything) (consumed : Nat) (calls : List Call) :
    Keeps I Anything (userMessageCallback (TcpConnectSocketfd.runWriteComplete script depth)
      consumed calls) :=
  h.messageCallback h.runWriteComplete h.runWriteComplete consumed
    fun (_ : .shutdownWrite ∈ calls) _ => id

end Runs

/-- A call leaves nothing unwatched. -/
theorem Socket.Watched.of_keeps {k : Socket} {u : State κ ρ} {x : Comp κ ρ Unit}
    (h : k.Watched s) (hconn : u.conn = s.conn) (hrun : x u = .ok () t)
    (hwaits : Keeps (Waits u.kernel.sends (u.conn.pollable.isWriting = true)) Anything x)
    (hshut : Keeps (fun s => s.conn.isWriteEndShutdown = true) Anything x)
    (hreading : Keeps (fun s => s.conn.pollable.isReading = false) Anything x) :
    (k.after s t u.kernel.sends).Watched t := by
  have hused := wp_of_ok (hwaits u (waits_of_start u)) hrun
  rw [hconn] at hused
  refine h.call hused (fun ho => ?_) fun hr => ?_
  · rw [← hconn] at ho
    exact wp_of_ok (Q := fun _ t => t.conn.isWriteEndShutdown = true) (hshut u ho) hrun
  · rw [← hconn] at hr
    exact wp_of_ok (Q := fun _ t => t.conn.pollable.isReading = false) (hreading u hr) hrun

/-- A dispatch leaves nothing unwatched that it has not been told of. -/
theorem Socket.watched_of_dispatch {k : Socket} {u : State κ ρ} {activeEvents : UInt32}
    {recvs : List RecvResult} {messageCallback : Comp κ ρ Unit}
    (hreports : k.Reports s activeEvents recvs) (hconn : u.conn = s.conn)
    (hrun : dispatchActiveEvents (runWriteComplete script depth) activeEvents recvs
      messageCallback u = .ok () t)
    (hwaits : Keeps (Waits u.kernel.sends (u.conn.pollable.isWriting = true)) Anything
      messageCallback)
    (hreading : Keeps (fun s => s.conn.pollable.isReading = false) Anything messageCallback) :
    ((k.reported activeEvents).after s t u.kernel.sends).Watched t := by
  have hused := wp_of_ok (dispatch_waits (waits_of_start u) hwaits) hrun
  rw [hconn] at hused
  refine .dispatch hreports hused fun hends => ?_
  rw [← hconn] at hends
  exact wp_of_ok (Q := fun _ t => t.conn.pollable.isReading = false)
    (dispatch_reading hreading hends) hrun

theorem Socket.watched_of_detached {k : Socket} (hd : s.conn.pollable.isDetached = true) :
    k.Watched s where
  reads hreading := by
    rw [PollableFileDescriptor.isReading_of_detached _ hd] at hreading
    cases hreading
  writes _ hwriting := by
    rw [PollableFileDescriptor.isWriting_of_detached _ hd] at hwriting
    cases hwriting

theorem Polled.Step.watched (hstep : Polled.Step script depth p q)
    (h : p.socket.Watched p.state) : q.socket.Watched q.state := by
  cases hstep with
  | arrive data => exact h.arrive data
  | finish => exact h.finish
  | drain => exact h.drain
  | hangUp => exact ⟨fun _ => .inl rfl, fun _ _ => .inl rfl⟩
  | @call s t k kernel call hanswers hrun =>
    exact h.of_keeps (u := { s with kernel := kernel }) rfl hrun (kept_waits.runCall call)
      (kept_shut.runCall call) (kept_notReading.runCall call)
  | @dispatch s t k kernel activeEvents recvs consumed calls hreports hanswers hrun =>
    exact Socket.watched_of_dispatch (u := { s with kernel := kernel }) hreports rfl hrun
      (kept_waits.userCallback consumed calls) (kept_notReading.userCallback consumed calls)

/-- Whatever the owner and its callbacks do: when `epoll` has nothing to report of a connection,
all that has arrived has been read, as long as it reads at all; and while it is open, output waits
only because the kernel has no room for it. -/
theorem nothing_missed {timeStamp : Int} {context : Option κ}
    {callback : Option WriteCompleteCallback} {incoming : List UInt8} {ended : Bool}
    (hr : Reaches (Polled.Step script depth)
      ⟨started timeStamp context callback, .registered incoming ended⟩ p)
    (hpending : p.socket.pending = false) :
    (p.state.conn.pollable.isReading = true →
      p.socket.incoming = [] ∧ p.socket.ended = false) ∧
    (p.state.conn.pollable.isDetached = false → p.state.conn.isWriteEndShutdown = false →
      SendsFirst p.state.history.calls → p.socket.full = false →
      p.state.history.accepted = submitted p.state.history.calls) := by
  have hwatched : p.socket.Watched p.state := by
    refine hr.invariant (I := fun p => p.socket.Watched p.state) ?_ fun _ _ h hstep =>
      hstep.watched h
    refine ⟨fun _ => ?_, fun _ hwriting => by cases hwriting⟩
    cases hreadable : (Socket.registered incoming ended).readable with
    | true => exact .inl hreadable
    | false => exact .inr rfl
  have hrun : Reaches (Step (runWriteComplete script depth))
      (started timeStamp context callback) p.state := by
    refine hr.project Polled.state fun a b hstep => ?_
    cases hstep with
    | arrive => exact .inl rfl
    | finish => exact .inl rfl
    | drain => exact .inl rfl
    | hangUp => exact .inl rfl
    | call kernel call _ h => exact .inr ⟨kernel, .call call, h⟩
    | dispatch kernel activeEvents recvs consumed calls _ _ h =>
      exact .inr ⟨kernel, .dispatch activeEvents recvs consumed calls, h⟩
  obtain ⟨hordered, hrecorded⟩ := reaches_ordered hrun
  refine ⟨fun hreading => hwatched.read_all hreading hpending, fun hd ho hf hroom => ?_⟩
  · have hc : .shutdownWrite ∉ p.state.history.calls := fun hmem => by
      rw [hrecorded hmem] at ho
      cases ho
    have horder := hordered hd ho hf hc
    have hidle := hwatched.isWriting ho hpending hroom
    have hstream := horder.stream
    rwa [horder.idle hidle, List.append_nil] at hstream

/-- The kernel takes one byte of two and has no room for the other one, until the first is gone. -/
theorem nothing_missed_two_bytes : ∃ p : Polled Unit Unit,
    p.socket.pending = false ∧ p.state.history.accepted = bytes "ab" := by
  let callback : Comp Unit Unit Unit := runWriteComplete (fun _ => []) 0
  let first : List SendResult := [.accepted 1, .error .EAGAIN, .error .EAGAIN]
  let second : List SendResult := [.accepted 1, .error .EAGAIN]
  let start : State Unit Unit := started 0 none none
  have hrun : ∃ s t, runCall callback (.send (bytes "ab"))
        { start with kernel := ⟨first, [], []⟩ } = .ok () s ∧
      dispatchActiveEvents callback epollOut [] (userMessageCallback callback 0 [])
        { s with kernel := ⟨second, [], []⟩ } = .ok () t ∧
      s.kernel.sends = [.error .EAGAIN] ∧ t.kernel.sends = [.error .EAGAIN] ∧
      s.conn.pollable.isReading = true ∧ s.conn.pollable.isWriting = true ∧
      t.conn.pollable.isDetached = false ∧ t.conn.isWriteEndShutdown = false ∧
      t.history.calls = [.send (bytes "ab")] :=
    ⟨_, _, rfl, rfl, rfl, rfl, rfl, rfl, rfl, rfl, rfl⟩
  obtain ⟨s, t, hcall, hdispatch, hfirst, hsecond, hreading, hwriting, hd, ho, hcalls⟩ := hrun
  let refused : Socket := (Socket.registered [] false).after start s first
  have hreports : (refused.drain s).Reports s epollOut [] := by
    refine ⟨?_, ?_, ?_, fun hread => ?_⟩
    · simp [Socket.drain, hwriting]
    · rw [hreading]
      rfl
    · rw [hwriting]
      rfl
    · cases hread
  let settled : Socket := ((refused.drain s).reported epollOut).after s t second
  have hr : Reaches (Polled.Step (fun _ => []) 0) ⟨start, .registered [] false⟩ ⟨t, settled⟩ := by
    refine .head (.call ⟨first, [], []⟩ (.send (bytes "ab")) ?_ hcall) (.head .drain
      (.single (.dispatch ⟨second, [], []⟩ epollOut [] 0 [] hreports ?_ hdispatch)))
    · rw [hfirst]
      exact List.cons_ne_nil _ _
    · rw [hsecond]
      exact List.cons_ne_nil _ _
  have hpending : settled.pending = false := by
    simp [settled, Socket.after, Socket.reported, hwriting]
  have hroom : settled.full = false := by
    simp [settled, Socket.after, hsecond, second, isFull]
  have hf : SendsFirst t.history.calls := by
    rw [hcalls]
    exact List.pairwise_singleton _ _
  have htaken := (nothing_missed hr hpending).2 hd ho hf hroom
  rw [hcalls] at htaken
  exact ⟨⟨t, settled⟩, hpending, htaken⟩

end XubinhServer.TcpConnectSocketfd

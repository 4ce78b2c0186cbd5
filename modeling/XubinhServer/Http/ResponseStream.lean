import XubinhServer.Http.Server
import XubinhServer.TcpConnectSocketfd.Live

/-! What the HTTP server sends on a connection: the responses to the requests that it has handed
on, one behind the other. -/
namespace XubinhServer

open Halting EventPoller TcpConnectSocketfd Transition

namespace HttpServer

/-- What the HTTP request callback sends for `requests`. -/
def responses (callbacks : Callbacks) (requests : List HttpRequest) : List UInt8 :=
  requests.zipIdx.flatMap fun r => (callbacks.request r.2 r.1).flatten

theorem responses_append (callbacks : Callbacks) (requests : List HttpRequest)
    (request : HttpRequest) : responses callbacks (requests ++ [request]) =
      responses callbacks requests ++ (callbacks.request requests.length request).flatten := by
  simp [responses, List.zipIdx_append]

/-- A live connection has handed `requests` on and sent `data`, and the write-complete callback is
the closure or none. -/
def Sent (requests : List HttpRequest) (data : List UInt8) (s : HttpState) : Prop :=
  Closed s ∨ s.history.reports = requests ∧ submitted s.history.calls = data ∧
    s.conn.writeCompleteCallback ≠ some .user

variable {callbacks : Callbacks} {depth : Nat} {s : HttpState} {requests : List HttpRequest}
  {data : List UInt8}

theorem runWriteComplete_sent :
    Keeps (Sent requests data) Anything (runWriteComplete callbacks.script depth) := by
  intro s hs
  cases hs with
  | inl hclosed =>
    exact wp_mono (runWriteComplete_closed s hclosed) (fun _ _ => .inl) fun _ _ => id
  | inr hlive =>
    cases depth with
    | zero =>
      simp only [runWriteComplete, wp_bind, wp_get, wp_ite, wp_throw, wp_pure]
      split
      · trivial
      · exact .inr hlive
    | succ depth =>
      simp only [runWriteComplete, wp_bind, wp_get]
      cases hcallback : s.conn.writeCompleteCallback with
      | none => exact .inr hlive
      | some callback =>
        cases callback with
        | user => exact absurd hcallback hlive.2.2
        | shutdownWrite =>
          simp only [wp_bind, wp_get, wp_modify]
          exact wp_mono (shutdownWrite_closed _) (fun _ _ => .inl) fun _ _ => id

theorem send_sent (more : List UInt8) (hs : Sent requests data s) :
    wp (TcpConnectSocketfd.send (runWriteComplete callbacks.script depth) more)
      (fun _ => Sent requests (data ++ more)) Anything s := by
  cases hs with
  | inl hclosed =>
    have hsend := kept_closed.send _ more
      (@runWriteComplete_closed HttpParser HttpRequest callbacks.script depth)
    exact wp_mono (hsend s hclosed) (fun _ _ => .inl) fun _ _ => id
  | inr hlive =>
    obtain ⟨hreports, hcalls, hcallback⟩ := hlive
    replace hcalls : submitted (s.history.calls ++ [.send more]) = data ++ more := by
      rw [submitted_append, hcalls]
    simp only [TcpConnectSocketfd.send, record, wp_bind, wp_modify, wp_get, wp_ite, wp_pure]
    split
    · exact .inr ⟨hreports, hcalls, hcallback⟩
    split
    · exact wp_appendOutput (fun _ _ => .inr ⟨hreports, hcalls, hcallback⟩) trivial
    apply sendAsManyData_rule
    · intro ks n _
      simp only [wp_ite, wp_bind, enableWriteEvent]
      split
      · exact runWriteComplete_sent _ (.inr ⟨hreports, hcalls, hcallback⟩)
      · exact wp_appendOutput (fun _ _ => .inr ⟨hreports, hcalls, hcallback⟩) trivial
    · intro ks n
      refine wp_abort fun t ht => ?_
      simp only [if_true]
      exact runWriteComplete_sent t (.inl (.inl ht))

theorem runCalls_sent (pieces : List (List UInt8)) (hs : Sent requests data s) :
    wp (runCalls (runWriteComplete callbacks.script depth) (pieces.map .send))
      (fun _ => Sent requests (data ++ pieces.flatten)) Anything s := by
  induction pieces generalizing s data with
  | nil =>
    rw [List.flatten_nil, List.append_nil]
    exact hs
  | cons piece pieces ih =>
    rw [List.flatten_cons, ← List.append_assoc]
    exact wp_seq (f := fun _ => runCalls (runWriteComplete callbacks.script depth)
      (pieces.map .send)) (send_sent piece hs) fun _ t ht => ih ht

/-- The responses to the requests that have been handed on have been sent. -/
def Answered (callbacks : Callbacks) (s : HttpState) : Prop :=
  Closed s ∨ submitted s.history.calls = responses callbacks s.history.reports ∧
    s.conn.writeCompleteCallback ≠ some .user

theorem answered_of_sent (h : Sent requests (responses callbacks requests) s) :
    Answered callbacks s := by
  refine h.imp_right fun hlive => ?_
  obtain ⟨hreports, hcalls, hcallback⟩ := hlive
  rw [hreports]
  exact ⟨hcalls, hcallback⟩

theorem Answered.sent (h : Answered callbacks s) :
    Sent s.history.reports (responses callbacks s.history.reports) s :=
  h.imp_right fun hlive => ⟨rfl, hlive⟩

theorem runWriteComplete_answered :
    Keeps (Answered callbacks) Anything (runWriteComplete callbacks.script depth) :=
  fun s hs => wp_mono (runWriteComplete_sent s hs.sent) (fun _ _ => answered_of_sent)
    fun _ _ => id

theorem shutdownWrite_answered (s : HttpState) :
    wp (shutdownWrite (runWriteComplete callbacks.script depth)) (fun _ => Answered callbacks)
      Anything s :=
  wp_mono (shutdownWrite_closed s) (fun _ _ => .inl) fun _ _ => id

/-- A request is handed on and answered, and then the connection goes on or is closed. -/
theorem handleRequest_answered (parser : HttpParser) (hs : Answered callbacks s) :
    wp (handleRequest callbacks (runWriteComplete callbacks.script depth) parser)
      (fun _ => Answered callbacks) Anything s := by
  have hsent : Sent (s.history.reports ++ [parser.request])
      (responses callbacks s.history.reports)
      { s with history.reports := s.history.reports ++ [parser.request] } :=
    hs.imp_right fun hlive => ⟨rfl, hlive⟩
  have hcalls := @runCalls_sent callbacks depth _ _ _
    (callbacks.request s.history.reports.length parser.request) hsent
  rw [← responses_append] at hcalls
  simp only [handleRequest, httpRequestCallback, wp_bind, wp_get, wp_modify]
  refine wp_mono hcalls (fun _ t ht => ?_) fun _ _ => id
  have hanswered := answered_of_sent ht
  simp only [wp_ite, wp_bind, wp_get, wp_pure, wp_modify, registerClosure]
  split
  · exact hanswered
  split
  · split
    · exact hanswered.imp_right fun hlive => ⟨hlive.1, by simp⟩
    · exact shutdownWrite_answered t
  · exact hanswered

theorem messageCallback_answered (beyond : Nat → UInt8) (timeStamp : Int) :
    Keeps (Answered callbacks) Anything
      (messageCallback callbacks (runWriteComplete callbacks.script depth) beyond timeStamp) := by
  intro s hs
  simp only [messageCallback, setTimeStamp, wp_bind, wp_modify, wp_get]
  cases s.conn.context with
  | none => trivial
  | some parser =>
    simp only [wp_bind, wp_get, wp_liftPure]
    cases parser.parse beyond timeStamp s.conn.inputBuffer with
    | error e => trivial
    | ok parsed =>
      simp only [ends_ok, wp_modify, wp_ite, wp_pure]
      split
      · exact wp_abort fun t ht => .inl (.inl ht)
      split
      · exact handleRequest_answered parsed.2.1 hs
      · exact hs

/-- A connection becomes no more live by a change of what its poller listens for. -/
theorem Answered.pollable {p : PollableFileDescriptor}
    (h : Answered callbacks s) (hd : s.conn.pollable.isDetached = true → p.isDetached = true) :
    Answered callbacks { s with conn.pollable := p } :=
  h.imp_left fun hclosed => hclosed.imp_left hd

theorem readEvent_answered {message : HttpComp Unit} {recvs : List RecvResult}
    (hm : Keeps (Answered callbacks) Anything message) :
    Keeps (Answered callbacks) Anything
      (readEventCallback (runWriteComplete callbacks.script depth) recvs message) := by
  intro s hs
  have hreceive : Keeps (Answered callbacks) Anything (receiveLoop recvs 0) :=
    receiveLoop_keeps (fun _ _ => id) (fun _ ht => ht.pollable (by simp)) (fun _ _ => trivial)
      recvs 0
  rw [readEventCallback, receiveAndProcess]
  refine wp_seq (I := Answered callbacks) (wp_seq (hreceive s hs) fun total t ht => ?_)
    fun _ t ht => ?_
  · simp only [wp_ite, wp_pure]
    split
    · exact hm t ht
    · exact ht
  · simp only [wp_bind, wp_get, wp_ite, wp_modify, wp_pure]
    split
    · exact ht
    · split
      · exact shutdownWrite_answered _
      · exact ht

theorem writeEvent_answered : Keeps (Answered callbacks) Anything
    (writeEventCallback (runWriteComplete callbacks.script depth)) := by
  intro s hs
  have hflush : wp flushOutput (fun _ => Answered callbacks) Anything s :=
    flushOutput_rule (fun _ _ _ => hs) (fun _ _ => wp_abort fun t ht => .inl (.inl ht))
      fun _ => hs
  have hcomplete := flushAndComplete_rule (Q := fun _ => Answered callbacks) hflush
    (fun t ht => @runWriteComplete_answered callbacks depth _ (ht.pollable (by simp))) fun _ => id
  simp only [writeEventCallback, wp_bind, wp_get, wp_ite, wp_pure]
  split
  · exact hs
  split
  · exact hs
  refine wp_mono hcomplete (fun done t ht => ?_) fun _ _ => id
  cases done with
  | false => exact ht
  | true =>
    simp only [if_true, wp_bind, wp_get, wp_ite, wp_pure]
    split
    · exact shutdownWrite_answered t
    · exact ht

theorem dispatch_answered (d : HttpDispatch) :
    Keeps (Answered callbacks) Anything (dispatch callbacks depth d) := by
  intro s hs
  have hclose : Answered callbacks { s with
      conn.pollable := s.conn.pollable.detachFromPoller } :=
    .inl (.inl (PollableFileDescriptor.detachFromPoller_isDetached _))
  refine wp_seq (Kept.dispatchEvent hs fun _ => hclose) fun _ t ht => ?_
  refine wp_seq (Kept.dispatchEvent ht fun _ => show wp errorEventCallback _ _ _ from ht)
    fun _ t ht => ?_
  have hm := @messageCallback_answered callbacks depth d.beyond d.timeStamp
  refine wp_seq (Kept.dispatchEvent ht fun _ => readEvent_answered hm t ht) fun _ t ht => ?_
  exact Kept.dispatchEvent ht fun _ => writeEvent_answered t ht

/-- Nothing changes but the input, the parser, the time stamp, the write-complete callback and the
requests, of which there are more. -/
structure SameOutput (s t : HttpState) : Prop where
  pollable : t.conn.pollable = s.conn.pollable
  output : t.conn.outputBuffer = s.conn.outputBuffer
  shut : t.conn.isWriteEndShutdown = s.conn.isWriteEndShutdown
  calls : t.history.calls = s.history.calls
  accepted : t.history.accepted = s.history.accepted
  sends : t.kernel.sends = s.kernel.sends
  reports : s.history.reports <+: t.history.reports

section Kept
variable {I : HttpState → Prop} (h : Kept I I Anything)
  (hsame : ∀ s t, SameOutput s t → I s → I t) (habort : Keeps I Anything abortFromEventLoop)
include h hsame

theorem handleRequest_keeps (parser : HttpParser) : Keeps I Anything
    (handleRequest callbacks (runWriteComplete callbacks.script depth) parser) := by
  intro s hs
  have hw : Keeps I Anything (runWriteComplete callbacks.script depth) :=
    h.callback (fun _ => id) (fun _ _ _ => id) depth
  have hreport : I { s with history.reports := s.history.reports ++ [parser.request] } :=
    hsame s _ ⟨rfl, rfl, rfl, rfl, rfl, rfl, List.prefix_append _ _⟩ hs
  simp only [handleRequest, httpRequestCallback, wp_bind, wp_get, wp_modify]
  refine wp_mono (h.calls hw hw (fun _ _ => id) _ hreport) (fun _ t ht => ?_) fun _ _ => id
  simp only [wp_ite, wp_bind, wp_get, wp_pure, wp_modify, registerClosure]
  split
  · exact ht
  split
  · split
    · exact hsame t _ ⟨rfl, rfl, rfl, rfl, rfl, rfl, List.prefix_refl _⟩ ht
    · exact h.shutdownWrite _ t hw hw ht ht
  · exact hsame t _ ⟨rfl, rfl, rfl, rfl, rfl, rfl, List.prefix_refl _⟩ ht

include habort

/-- What all operations keep, the message callback of the HTTP server keeps. -/
theorem messageCallback_keeps (beyond : Nat → UInt8) (timeStamp : Int) : Keeps I Anything
    (messageCallback callbacks (runWriteComplete callbacks.script depth) beyond timeStamp) := by
  intro s hs
  simp only [messageCallback, setTimeStamp, wp_bind, wp_modify, wp_get]
  cases s.conn.context with
  | none => trivial
  | some parser =>
    simp only [wp_bind, wp_get, wp_liftPure]
    cases parser.parse beyond timeStamp s.conn.inputBuffer with
    | error e => trivial
    | ok parsed =>
      have hparsed : I { s with
          conn.timeStamp := timeStamp
          conn.context := some parsed.2.1
          conn.inputBuffer := parsed.2.2 } :=
        hsame s _ ⟨rfl, rfl, rfl, rfl, rfl, rfl, List.prefix_refl _⟩ hs
      simp only [ends_ok, wp_modify, wp_ite, wp_pure]
      split
      · exact habort _ hparsed
      split
      · exact handleRequest_keeps h hsame parsed.2.1 _ hparsed
      · exact hparsed

theorem reaches_kept {allowed : HttpState → HttpDispatch → Prop} {timeStamp : Int}
    (hkernel : ∀ s kernel, I s → I { s with kernel := kernel })
    (hclose : Keeps I Anything closeEventCallback)
    (hstart : I (connected timeStamp false).state) {s : Served}
    (hr : Reaches (Step callbacks depth allowed) (connected timeStamp false) s)
    (hrun : s.halted = none) : I s.state := by
  have hw : Keeps I Anything (runWriteComplete callbacks.script depth) :=
    h.callback (fun _ => id) (fun _ _ _ => id) depth
  refine hr.invariant (I := fun s => s.halted = none → I s.state) (fun _ => hstart) ?_ hrun
  intro a b ha hstep hb
  cases hstep with
  | dispatch d hnone _ _ =>
    have hs : I { a.state with kernel := d.kernel } := hkernel a.state d.kernel (ha hnone)
    have hm := @messageCallback_keeps callbacks depth I h hsame habort d.beyond d.timeStamp
    have hdispatch : wp (dispatch callbacks depth d) (fun _ => I) Anything
        { a.state with kernel := d.kernel } := h.dispatch hw hw hm hs fun _ => hclose _ hs
    rw [afterDispatch] at hb ⊢
    cases hd : dispatch callbacks depth d { a.state with kernel := d.kernel } with
    | ok _ t => exact wp_of_ok hdispatch hd
    | error e t =>
      rw [hd] at hb
      cases hb

end Kept

theorem reaches_answered {allowed : HttpState → HttpDispatch → Prop} {timeStamp : Int}
    {s : Served} (hr : Reaches (Step callbacks depth allowed) (connected timeStamp false) s)
    (hrun : s.halted = none) : Answered callbacks s.state := by
  refine hr.invariant (I := fun s => s.halted = none → Answered callbacks s.state)
    (fun _ => .inr ⟨rfl, by simp [connected, started, TcpConnectSocketfd.start,
      TcpConnectSocketfd.new]⟩) ?_ hrun
  intro a b ha hstep hb
  cases hstep with
  | dispatch d hnone _ _ =>
    have hs : Answered callbacks { a.state with kernel := d.kernel } := ha hnone
    rw [afterDispatch] at hb ⊢
    cases hd : dispatch callbacks depth d { a.state with kernel := d.kernel } with
    | ok _ t =>
      have ht := wp_of_ok (@dispatch_answered callbacks depth d _ hs) hd
      exact ht
    | error e t =>
      rw [hd] at hb
      cases hb

/-- However requests arrive and however much the kernel takes at once: while a connection of the
HTTP server is live, what the kernel has taken and what waits in the output buffer are exactly the
responses to the requests handed on so far, each of them whole and in the order of the requests. -/
theorem responses_in_order {allowed : HttpState → HttpDispatch → Prop} {timeStamp : Int}
    {s : Served} (hr : Reaches (Step callbacks depth allowed) (connected timeStamp false) s)
    (hrun : s.halted = none) (hd : s.state.conn.pollable.isDetached = false)
    (ho : s.state.conn.isWriteEndShutdown = false) :
    s.state.history.accepted ++ s.state.conn.outputBuffer.unread =
        responses callbacks s.state.history.reports ∧
      (s.state.conn.pollable.isWriting = false →
        s.state.history.accepted = responses callbacks s.state.history.reports) := by
  have hstart : Ordered (connected timeStamp false).state :=
    started_ordered timeStamp (some HttpParser.new) none
  have hordered : Ordered s.state := by
    refine reaches_kept kept_ordered (fun s t hsame hs => ?_)
      (fun s _ => wp_abort fun _ hd => ordered_of_detached hd)
      (fun _ _ hs => hs.of_same rfl rfl rfl rfl rfl rfl)
      (fun s _ => ordered_of_detached (PollableFileDescriptor.detachFromPoller_isDetached _))
      hstart hr hrun
    exact hs.of_same (by rw [hsame.pollable]) (by rw [hsame.pollable]) hsame.output hsame.shut
      hsame.calls hsame.accepted
  have hrecorded : ShutRecorded s.state := by
    refine reaches_kept kept_shutRecorded (fun s t hsame hs => ?_)
      (fun s _ => abortFromEventLoop_rule (fun _ _ _ => rfl) (fun _ _ _ => trivial)
        fun _ _ _ _ _ _ => trivial) (fun _ _ hs => hs) (fun _ hs => hs)
      (by simp [ShutRecorded, connected, started]) hr hrun
    rw [ShutRecorded, hsame.calls, hsame.shut]
    exact hs
  have horder := inOrder_of_live hordered hrecorded hd ho
  cases reaches_answered hr hrun with
  | inl hclosed =>
    rw [Closed, hd, ho] at hclosed
    simp at hclosed
  | inr hlive =>
    have hstream := horder.stream
    rw [hlive.1] at hstream
    refine ⟨hstream, fun hidle => ?_⟩
    rwa [horder.idle hidle, List.append_nil] at hstream

/-- The kernel takes one byte of the response to a request. -/
theorem responses_in_order_of_partial_send : ∃ s : Served, s.state.history.accepted = bytes "o" ∧
    s.state.history.accepted ++ s.state.conn.outputBuffer.unread = bytes "ok" := by
  let callbacks : Callbacks := ⟨fun _ _ => [bytes "ok"], fun _ => []⟩
  have hserved := exists_served callbacks 1 (fun _ _ => True) (connected 0 false)
    [⟨epollIn, [.read (bytes "GET / HTTP/1.1\r\n\r\n")],
      ⟨[.accepted 1, .error .EAGAIN], [], []⟩, 1, fun _ => 0⟩]
    (fun s => s.halted = none ∧ s.state.conn.pollable.isDetached = false ∧
      s.state.conn.isWriteEndShutdown = false ∧ s.state.history.accepted = bytes "o" ∧
      responses callbacks s.state.history.reports = bytes "ok") (by decide +kernel)
  obtain ⟨s, hr, hrun, hd, ho, haccepted, hresponses⟩ := hserved
  exact ⟨s, haccepted, hresponses ▸ (responses_in_order hr hrun hd ho).1⟩

end HttpServer

end XubinhServer

import XubinhServer.Http.Server

/-! Which read events the HTTP server survives. Once a request that asks to close has been
handed on, either the parser stays in state `SUCCESS` or the context is gone, so no more data may
arrive. -/
namespace XubinhServer

open Halting EventPoller TcpConnectSocketfd Transition

namespace HttpParser

/-- The message of the `LOG_FATAL` at the end of `parse`. -/
def unknownState : Halt := .logFatal "unknown http parsing state"

/-- The halts that come out of the scans: a reversed range, a released buffer. -/
def ScanHalt (e : Halt) : Prop := e = .lengthError ∨ e = .nullPointer

theorem slice_ends {mem : Nat → UInt8} {start stop : Nat} :
    ends (slice mem start stop) (fun _ => True) ScanHalt := by
  simp only [slice, ends_ite, ends_throw, ends_pure]
  split
  · exact .inl rfl
  · trivial

theorem crlf_ends (b : MutableSizeTcpBuffer) :
    ends b.getNextCrlfPosition (fun _ => True) ScanHalt := by
  simp only [MutableSizeTcpBuffer.getNextCrlfPosition, ends_ite, ends_throw, ends_pure]
  split
  · trivial
  · split
    · exact .inr rfl
    · trivial

section Request
variable {r : HttpRequest} {mem : Nat → UInt8} {start stop : Nat}

theorem setMethodType_ends : ends (r.setMethodType mem start stop) (fun _ => True) ScanHalt := by
  simp only [HttpRequest.setMethodType, ends_bind, ends_ite, ends_pure, ite_self]
  exact slice_ends

theorem setVersionType_ends :
    ends (r.setVersionType mem start stop) (fun _ => True) ScanHalt := by
  simp only [HttpRequest.setVersionType, ends_bind, ends_ite, ends_pure, ite_self]
  exact slice_ends

theorem parseVersion_ends : ends (r.parseVersion mem start stop) (fun _ => True) ScanHalt := by
  simp only [HttpRequest.parseVersion, ends_ite, ends_pure]
  split
  · trivial
  · exact setVersionType_ends

theorem parsePath_ends {methodEnd : Nat} :
    ends (r.parsePath mem methodEnd start stop) (fun _ => True) ScanHalt := by
  simp only [HttpRequest.parsePath, ends_ite, ends_pure]
  split
  · trivial
  · split
    · trivial
    · simp only [HttpRequest.setPath, ends_bind, ends_pure]
      exact ends_mono slice_ends (fun _ _ => parseVersion_ends) (fun _ => id)

theorem parseRequestLine_ends :
    ends (r.parseRequestLine mem start stop) (fun _ => True) ScanHalt := by
  simp only [HttpRequest.parseRequestLine, ends_ite, ends_pure]
  split
  · trivial
  · split
    · trivial
    · simp only [ends_bind]
      apply ends_mono setMethodType_ends _ (fun _ => id)
      intro h _
      obtain ⟨ok, request⟩ := h
      simp only [ends_ite, ends_pure]
      split
      · exact parsePath_ends
      · trivial

theorem parseHeaderLine_ends :
    ends (r.parseHeaderLine mem start stop) (fun _ => True) ScanHalt := by
  simp only [HttpRequest.parseHeaderLine]
  split
  · trivial
  · simp only [ends_ite, ends_bind, ends_pure]
    split
    · trivial
    · exact ends_mono slice_ends (fun _ _ => ends_mono slice_ends (fun _ _ => trivial)
        (fun _ => id)) (fun _ => id)

end Request

section Parse
variable {beyond : Nat → UInt8} {timeStamp : Int} {p : HttpParser} {b : MutableSizeTcpBuffer}

/-- A phase that does not return leaves the parser in the state of the next one. -/
theorem expectRequestLine_ends :
    ends (expectRequestLine beyond p b)
      (fun q => q.returned = none → q.parser.parsingState = .expectHeaders) ScanHalt := by
  simp only [expectRequestLine, ends_bind]
  apply ends_mono (crlf_ends b) _ (fun _ => id)
  intro position _
  cases position with
  | none => simp
  | some requestLineEnd =>
    simp only [ends_bind]
    apply ends_mono parseRequestLine_ends _ (fun _ => id)
    intro h _
    obtain ⟨ok, request⟩ := h
    cases ok <;> simp

theorem expectHeaders_ends (fuel : Nat) :
    ends (expectHeaders beyond timeStamp fuel p b)
      (fun q => q.returned = none → q.parser.parsingState = .expectBody) ScanHalt := by
  induction fuel generalizing p b with
  | zero => simp [expectHeaders]
  | succ fuel ih =>
    simp only [expectHeaders, ends_bind]
    apply ends_mono (crlf_ends b) _ (fun _ => id)
    intro position _
    cases position with
    | none => simp
    | some headerLineEnd =>
      simp only [ends_bind, ends_ite, ends_pure]
      split
      · split
        · intro _
          assumption
        · simp
        · simp
      · apply ends_mono parseHeaderLine_ends _ (fun _ => id)
        intro h _
        obtain ⟨ok, request⟩ := h
        cases ok with
        | true => exact ih
        | false => simp

theorem expectBody_ends :
    ends (expectBody beyond timeStamp p b) (fun q => q.returned ≠ none) ScanHalt := by
  simp only [expectBody, ends_bind, ends_ite, ends_pure, ends_throw]
  split
  · simp
  · split
    · exact .inr rfl
    · exact ends_mono slice_ends (by simp) (fun _ => id)

/-- `parse` reaches its last statement only in state `SUCCESS`. -/
theorem parse_ends (hp : p.parsingState ≠ .success) :
    ends (parse beyond timeStamp p b) (fun _ => True) ScanHalt := by
  have hfirst : p.parsingState ≠ .fail →
      ends ((Phase.mk none p b).andThen .expectRequestLine (expectRequestLine beyond))
        (fun q => q.returned = none → q.parser.parsingState = .expectHeaders ∨
          q.parser.parsingState = .expectBody) ScanHalt := by
    intro hfail
    simp only [Phase.andThen, ends_ite, ends_pure]
    split
    · exact ends_mono expectRequestLine_ends (fun q hq h => .inl (hq h)) (fun _ => id)
    · rename_i hstate
      intro _
      cases hs : p.parsingState with
      | expectRequestLine => exact absurd ⟨trivial, hs⟩ hstate
      | expectHeaders => exact .inl rfl
      | expectBody => exact .inr rfl
      | success => exact absurd hs hp
      | fail => exact absurd hs hfail
  have hsecond : ∀ q : Phase, (q.returned = none → q.parser.parsingState = .expectHeaders ∨
        q.parser.parsingState = .expectBody) →
      ends (q.andThen .expectHeaders fun p b =>
          expectHeaders beyond timeStamp (b.getReadableSize + 1) p b)
        (fun q => q.returned = none → q.parser.parsingState = .expectBody) ScanHalt := by
    intro q hq
    simp only [Phase.andThen, ends_ite, ends_pure]
    split
    · exact expectHeaders_ends _
    · rename_i hstate
      intro h
      exact (hq h).resolve_left fun heq => hstate ⟨h, heq⟩
  have hthird : ∀ q : Phase, (q.returned = none → q.parser.parsingState = .expectBody) →
      ends (q.andThen .expectBody (expectBody beyond timeStamp))
        (fun q => q.returned ≠ none) ScanHalt := by
    intro q hq
    simp only [Phase.andThen, ends_ite, ends_pure]
    split
    · exact expectBody_ends
    · rename_i hstate
      exact fun h => hstate ⟨h, hq h⟩
  simp only [parse, ends_ite, ends_bind, ends_pure]
  split
  · trivial
  · rename_i hfail
    refine ends_mono (hfirst hfail) (fun q hq => ?_) (fun _ => id)
    refine ends_mono (hsecond q hq) (fun q hq => ?_) (fun _ => id)
    refine ends_mono (hthird q hq) (fun q hq => ?_) (fun _ => id)
    cases hreturned : q.returned with
    | none => exact absurd hreturned hq
    | some result => trivial

end Parse

end HttpParser

namespace HttpServer

/-- A request that asked to close has been handed on. -/
def CloseRequested (s : HttpState) : Prop := ∃ r ∈ s.history.reports, r.needClose = true

/-- No more messages come, or none may come. -/
def Done (s : HttpState) : Prop :=
  s.conn.pollable.isDetached = true ∨ s.conn.pollable.isReading = false ∨ CloseRequested s

/-- The connection is open, its callback is not the closure, and its parser is one of `P`. -/
def Parsing (P : HttpParser → Prop) (s : HttpState) : Prop :=
  s.conn.isWriteEndShutdown = false ∧ s.conn.writeCompleteCallback ≠ some .shutdownWrite ∧
    ∃ p, s.conn.context = some p ∧ P p

def Serving (P : HttpParser → Prop) (s : HttpState) : Prop := Done s ∨ Parsing P s

/-- A halt that is not one of the two that later data causes. -/
def Accepted (e : Halt) (_ : HttpState) : Prop :=
  e ≠ .badAnyCast ∧ e ≠ HttpParser.unknownState

theorem accepted_of_connectionHalt (e : Halt) (s : HttpState) (h : ConnectionHalt e) :
    Accepted e s := by
  obtain rfl | rfl | rfl | rfl | rfl := h <;> exact ⟨by decide, by decide⟩

theorem accepted_of_scanHalt {e : Halt} {s : HttpState} (h : HttpParser.ScanHalt e) :
    Accepted e s := by
  obtain rfl | rfl := h <;> exact ⟨by decide, by decide⟩

theorem stable_done : Stable Done where
  count _ hs := hs
  record _ _ hs := hs
  took _ _ _ hs := hs
  answered _ _ hs := hs
  pollable _ _ hread hdetach hs := by
    obtain hd | hr | hc := hs
    · exact .inl (hdetach hd)
    · exact .inr (.inl (by by_contra h; simp [hread (by simpa using h)] at hr))
    · exact .inr (.inr hc)
  input _ _ hs := hs
  output _ _ _ hs := hs
  closed _ _ hs := hs
  aborted _ _ := .inl (PollableFileDescriptor.detachFromPoller_isDetached _)

variable {P : HttpParser → Prop}

theorem stable_serving : Stable (Serving P) where
  count _ hs := hs
  record _ _ hs := hs
  took _ _ _ hs := hs
  answered _ _ hs := hs
  pollable s p hread hdetach hs := hs.imp (stable_done.pollable s p hread hdetach) id
  input _ _ hs := hs
  output _ _ _ hs := hs
  closed _ _ hs := hs
  aborted _ _ := .inl (.inl (PollableFileDescriptor.detachFromPoller_isDetached _))

theorem kept_done : Kept Done Done Accepted :=
  stable_done.kept_of_shut accepted_of_connectionHalt fun _ _ hs => hs

theorem kept_serving : Kept Done (Serving P) Accepted := by
  apply stable_serving.kept accepted_of_connectionHalt
  · intro writeComplete s hA _ hs _
    exact wp_mono (kept_done.shutdownWrite _ _ hA hA hs hs) (fun _ _ => .inl) (fun _ _ => id)
  · intro s hs hclosure
    exact hs.resolve_right fun h => h.2.1 hclosure
  · intro s _ hread
    exact .inr (.inl hread)

section Callbacks
variable (callbacks : Callbacks) (depth : Nat)

theorem not_mem_sends (data : List (List UInt8)) : Call.shutdownWrite ∉ data.map Call.send := by
  simp

theorem callback_done : Keeps Done Accepted (runWriteComplete callbacks.script depth) :=
  kept_done.callback (fun _ => id) (fun _ _ _ => id) depth

theorem callback_serving :
    Keeps (Serving P) Accepted (runWriteComplete callbacks.script depth) :=
  kept_serving.callback (fun depth _ => callback_done callbacks depth)
    (fun _ hmem => absurd hmem (not_mem_sends _)) depth

end Callbacks

/-- A parser that `parse` may be called on. -/
def Live (p : HttpParser) : Prop := p.parsingState ≠ .success

section MessageCallback
variable {callbacks : Callbacks} {writeComplete : HttpComp Unit} {s : HttpState}

/-- Behind a request that asks to close nothing more may come; behind another one the parser is
reset. -/
theorem handleRequest_serving {parser : HttpParser} (hA : Keeps Done Accepted writeComplete)
    (hw : Keeps (Serving (· = parser)) Accepted writeComplete) (hs : Serving (· = parser) s) :
    wp (handleRequest callbacks writeComplete parser) (fun _ => Serving Live) Accepted s := by
  have hno := not_mem_sends (callbacks.request s.history.reports.length parser.request)
  simp only [handleRequest, httpRequestCallback, wp_bind, wp_get, wp_modify]
  cases hclose : parser.request.needClose with
  | true =>
    have hdone : Done { s with history.reports := s.history.reports ++ [parser.request] } :=
      .inr (.inr ⟨parser.request, by simp, hclose⟩)
    refine wp_mono (kept_done.calls hA hA (fun _ _ => id) _ hdone) (fun _ t ht => ?_)
      (fun _ _ => id)
    simp only [wp_ite, wp_bind, wp_get, wp_pure, if_true, registerClosure, wp_modify]
    split
    · exact .inl ht
    · split
      · exact .inl ht
      · exact wp_mono (kept_done.shutdownWrite _ _ hA hA ht ht) (fun _ _ => .inl) (fun _ _ => id)
  | false =>
    have hserving : Serving (· = parser)
        { s with history.reports := s.history.reports ++ [parser.request] } := by
      refine hs.imp (fun h => ?_) id
      obtain hd | hr | ⟨r, hmem, hr⟩ := h
      · exact .inl hd
      · exact .inr (.inl hr)
      · exact .inr (.inr ⟨r, List.mem_append_left _ hmem, hr⟩)
    refine wp_mono (kept_serving.calls hA hw (fun hmem => absurd hmem hno) _ hserving)
      (fun _ t ht => ?_) (fun _ _ => id)
    simp only [wp_ite, wp_pure, Bool.false_eq_true, if_false, wp_bind, wp_get, wp_modify]
    split
    · rename_i hshut
      exact .inl (ht.resolve_right fun h => absurd (hshut.symm.trans h.1) (by decide))
    · exact ht.imp id fun h => ⟨h.1, h.2.1, parser.reset, rfl, by simp [Live, HttpParser.reset]⟩

/-- A message for a live parser leaves a live parser, or nothing more may come. -/
theorem messageCallback_serving {beyond : Nat → UInt8} {timeStamp : Int}
    (hA : Keeps Done Accepted writeComplete)
    (hw : ∀ P, Keeps (Serving P) Accepted writeComplete) (hs : Serving Live s)
    (hlive : ∃ p, s.conn.context = some p ∧ Live p) :
    wp (messageCallback callbacks writeComplete beyond timeStamp) (fun _ => Serving Live)
      Accepted s := by
  obtain ⟨p, hcontext, hp⟩ := hlive
  simp only [messageCallback, setTimeStamp, wp_bind, wp_modify, wp_get, hcontext, wp_liftPure]
  refine ends_mono (HttpParser.parse_ends hp) (fun result _ => ?_) (fun _ => accepted_of_scanHalt)
  obtain ⟨isSuccess, parser, inputBuffer⟩ := result
  have hparser : ∀ P : HttpParser → Prop, P parser → Serving P { s with
      conn.timeStamp := timeStamp, conn.context := some parser, conn.inputBuffer := inputBuffer } :=
    fun P hP => hs.imp id fun h => ⟨h.1, h.2.1, parser, rfl, hP⟩
  simp only [wp_ite, wp_pure]
  split
  · exact wp_abort_of accepted_of_connectionHalt fun _ _ =>
      .inl (.inl (PollableFileDescriptor.detachFromPoller_isDetached _))
  · split
    · exact handleRequest_serving hA (hw _) (hparser _ rfl)
    · rename_i hstate
      exact hparser Live (by simpa [HttpParser.isSuccess, Live] using hstate)

end MessageCallback

/-- Data does not arrive behind a request that asked to close. -/
def NoLateData (s : HttpState) (d : HttpDispatch) : Prop :=
  has d.activeEvents eventTypeRead = true → delivers d.recvs = true → ¬CloseRequested s

/-- One dispatch: nothing more may come, or the parser is ready for more. -/
theorem dispatch_serving (callbacks : Callbacks) (depth : Nat) {s : HttpState} {d : HttpDispatch}
    (hs : Serving Live s) (hpolled : Polled s d) (hlate : NoLateData s d) :
    wp (dispatch callbacks depth d) (fun _ => Serving Live) Accepted
      { s with kernel := d.kernel } := by
  -- where data arrives, the parser is live until the message callback runs
  let Ready : HttpState → Prop := fun t => Serving Live t ∧
    (has d.activeEvents eventTypeRead = true → delivers d.recvs = true →
      ∃ p, t.conn.context = some p ∧ Live p)
  have hready : Ready { s with kernel := d.kernel } := by
    refine ⟨hs, fun hread hdata => ?_⟩
    obtain hdone | hparsing := hs
    · obtain hd | hr | hc := hdone
      · exact absurd (hpolled.1.symm.trans hd) (by decide)
      · exact absurd ((hpolled.2.1 hread).symm.trans hr) (by decide)
      · exact absurd hc (hlate hread hdata)
    · exact hparsing.2.2
  have hA := callback_done callbacks depth
  have hw : ∀ P, Keeps (Serving P) Accepted (runWriteComplete callbacks.script depth) :=
    fun P => callback_serving callbacks depth
  refine wp_seq (Kept.dispatchEvent hready fun _ => ?_) fun _ t ht => ?_
  · exact ⟨stable_serving.closeEvent (E := Accepted) _ hready.1, hready.2⟩
  refine wp_seq (Kept.dispatchEvent ht fun _ => show wp errorEventCallback _ _ _ from ht)
    fun _ t ht => ?_
  refine wp_seq (Kept.dispatchEvent (I := Serving Live) ht.1 fun hread => ?_) fun _ t ht => ?_
  · apply kept_serving.readEvent hA (hw _)
    have hreceive : Keeps Ready Accepted (receiveLoop d.recvs 0) :=
      receiveLoop_keeps (fun _ _ ht => ht)
        (fun t ht => ⟨stable_serving.pollable t _ (by simp) (by simp) ht.1, ht.2⟩)
        (fun t _ => accepted_of_connectionHalt _ t (.inr (.inl rfl))) d.recvs 0
    simp only [receiveAndProcess, receiveAllData, wp_bind]
    apply wp_mono (wp_and (hreceive t ht) (receiveLoop_delivers d.recvs 0 t)) _ (fun _ _ he => he.1)
    intro total u h
    obtain ⟨hu, hdata⟩ := h
    simp only [wp_ite, wp_pure]
    split
    · rename_i htotal
      exact messageCallback_serving hA hw hu.1 (hu.2 hread (hdata htotal))
    · exact hu.1
  · exact Kept.dispatchEvent ht fun _ => kept_serving.writeEvent hA (hw _) t ht

/-- As long as no data arrives behind a request that asked to close, `parse` is never called in
state `SUCCESS` and the context is never missing. -/
theorem message_callback_safe {callbacks : Callbacks} {depth : Nat} {timeStamp : Int}
    {hasWriteComplete : Bool} {s : Served}
    (hr : Reaches (Step callbacks depth NoLateData) (connected timeStamp hasWriteComplete) s) :
    s.halted ≠ some .badAnyCast ∧ s.halted ≠ some (.logFatal "unknown http parsing state") := by
  suffices h : (s.halted = none → Serving Live s.state) ∧
      ∀ e, s.halted = some e → Accepted e s.state by
    exact ⟨fun he => (h.2 _ he).1 rfl, fun he => (h.2 _ he).2 rfl⟩
  apply hr.invariant
  · refine ⟨fun _ => .inr ⟨rfl, ?_, .new, rfl, by simp [Live, HttpParser.new]⟩,
      fun e he => by cases he⟩
    cases hasWriteComplete <;> simp [connected, started, TcpConnectSocketfd.new, start]
  · intro a b hboth hstep
    obtain ⟨hserving, _⟩ := hboth
    cases hstep with | dispatch d hrun hpolled hallowed =>
    have hdispatch := dispatch_serving callbacks depth (hserving hrun) hpolled hallowed
    simp only [afterDispatch]
    split
    · rename_i t ht
      have hok := wp_of_ok hdispatch ht
      exact ⟨fun _ => hok, fun e he => by cases he⟩
    · rename_i e t ht
      have herror := wp_of_error hdispatch ht
      exact ⟨fun he => (by cases he), fun e' he => (by cases he; exact herror)⟩

instance (s : HttpState) (d : HttpDispatch) : Decidable (NoLateData s d) :=
  inferInstanceAs (Decidable (_ → _ → ¬∃ r ∈ s.history.reports, r.needClose = true))

/-- A request that asks to close, answered in one go, and the end of the stream. -/
theorem message_callback_safe_of_close :
    ∃ s : Served, s.state.history.reports.length = 1 ∧ s.halted ≠ some .badAnyCast ∧
      s.halted ≠ some (.logFatal "unknown http parsing state") := by
  obtain ⟨s, hr, hs⟩ := exists_served ⟨fun _ _ => [bytes "ok"], fun _ => []⟩ 1 NoLateData
    (connected 0 false)
    [⟨epollIn, [.read (bytes "GET / HTTP/1.0\r\nConnection: close\r\n\r\n")], ⟨[], [], []⟩, 0,
        fun _ => 0⟩,
      ⟨epollIn ||| epollRdHup, [.read []], ⟨[], [], []⟩, 1, fun _ => 0⟩]
    (fun s => s.state.history.reports.length = 1) (by decide +kernel)
  exact ⟨s, hs, message_callback_safe hr⟩

/-- With the answer still pending, the parser stays in state `SUCCESS`; with the answer sent, the
context is gone. Either way the next bytes end the process. -/
theorem message_callback_unsafe :
    (∃ s, Reaches (Step ⟨fun _ _ => [bytes "ok"], fun _ => []⟩ 1 fun _ _ => True)
      (connected 0 false) s ∧ s.halted = some (.logFatal "unknown http parsing state")) ∧
    (∃ s, Reaches (Step ⟨fun _ _ => [bytes "ok"], fun _ => []⟩ 1 fun _ _ => True)
      (connected 0 false) s ∧ s.halted = some .badAnyCast) := by
  constructor
  · exact exists_served _ _ _ _
      [⟨epollIn, [.read (bytes "GET / HTTP/1.0\r\nConnection: close\r\n\r\n")],
          ⟨[.error .EAGAIN], [], []⟩, 0, fun _ => 0⟩,
        ⟨epollIn, [.read (bytes "x")], ⟨[], [], []⟩, 1, fun _ => 0⟩] _ (by decide +kernel)
  · exact exists_served _ _ _ _
      [⟨epollIn, [.read (bytes "GET / HTTP/1.0\r\nConnection: close\r\n\r\n")],
          ⟨[], [], []⟩, 0, fun _ => 0⟩,
        ⟨epollIn, [.read (bytes "x")], ⟨[], [], []⟩, 1, fun _ => 0⟩] _ (by decide +kernel)

end HttpServer

end XubinhServer

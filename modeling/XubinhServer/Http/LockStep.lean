import Mathlib.Data.List.Infix
import XubinhServer.Http.Pipelining
import XubinhServer.Http.ResponseStream
import XubinhServer.TcpConnectSocketfd.EdgeTriggered

/-! A client that waits for one request to be handed on before it sends the next one is served,
however the bytes come and however much the kernel takes at once, with only edges to go by. -/
namespace XubinhServer.HttpServer

open Halting EventPoller TcpConnectSocketfd Transition

variable {callbacks : Callbacks} {depth : Nat} {s t : HttpState} {p : HttpParser}
  {requests : List (List UInt8 × HttpRequest)} {request : HttpRequest}
  {input rest sent data : List UInt8} {beyond : Nat → UInt8} {timeStamp : Int}
  {b : MutableSizeTcpBuffer}

/-- With the last of its bytes a request is complete, and the next one is not begun. -/
theorem parse_of_unfinished (beyond : Nat → UInt8) (timeStamp : Int)
    (hp : Unfinished p b.unread request) (hb : b.Valid) :
    ∃ q c, p.parse beyond timeStamp b = .ok (true, q, c) ∧ c.Valid ∧ c.unread = [] ∧
      q.isSuccess = true ∧ content q.request = content request := by
  obtain ⟨hreading, timeStamp', q, hcompletes, hcontent⟩ := hp
  have hq := HttpParser.completes_stamped timeStamp hcompletes hreading
  obtain ⟨c, hc, hunread, hparse⟩ := HttpParser.parse_of_completes hq hreading hb
  exact ⟨_, c, hparse, hc, hunread, decide_eq_true hq.1, hcontent⟩

/-- Before the last of its bytes, the parser waits for it. -/
theorem parse_of_incomplete (beyond : Nat → UInt8) (timeStamp : Int)
    (hp : Unfinished p (b.unread ++ rest) request) (hrest : rest ≠ []) (hb : b.Valid) :
    ∃ q c, p.parse beyond timeStamp b = .ok (true, q, c) ∧ c.Valid ∧ q.isSuccess = false ∧
      Unfinished q (c.unread ++ rest) request := by
  obtain ⟨hreading, timeStamp', q, hcompletes, hcontent⟩ := hp
  have hq := HttpParser.completes_stamped timeStamp hcompletes hreading
  obtain ⟨q', u, hpart, hwaits, hleft⟩ := HttpParser.exists_waits hq.2 hrest
  have hreading' : q'.Reading := by
    constructor
    · intro hstate
      simp [HttpParser.Waits, hstate] at hwaits
    · intro hstate
      simp [HttpParser.Waits, hstate] at hwaits
  obtain ⟨c, hc, rfl, hparse⟩ := HttpParser.parse_of_waiting hpart hwaits hb
  exact ⟨q', c, hparse, hc, decide_eq_false hreading'.1, hreading', timeStamp, _, ⟨hq.1, hleft⟩,
    hcontent⟩

/-- The requests `done` have been handed on, and the parser has begun the next one. Behind `input`,
the bytes `rest` of it are to come. -/
structure Begun (done : List (List UInt8 × HttpRequest)) (next : List UInt8 × HttpRequest)
    (input rest : List UInt8) (s : HttpState) : Prop where
  handed : s.history.reports.map content = done.map (content ·.2)
  parser : ∃ p, s.conn.context = some p ∧
    Unfinished p (s.conn.inputBuffer.unread ++ rest) next.2
  valid : s.conn.inputBuffer.Valid
  stream : input ++ rest = (done.map (·.1)).flatten ++ next.1

/-- A connection that has received `input` is before the last byte of a request, or behind all of
them. -/
inductive Reads (requests : List (List UInt8 × HttpRequest)) (input : List UInt8) (s : HttpState) :
    Prop
  | next (done more : List (List UInt8 × HttpRequest)) (next : List UInt8 × HttpRequest)
      (rest : List UInt8) (hrequests : requests = done ++ next :: more) (hrest : rest ≠ [])
      (h : Begun done next input rest s)
  | all (handed : s.history.reports.map content = requests.map (content ·.2))
      (valid : s.conn.inputBuffer.Valid) (stream : input = (requests.map (·.1)).flatten)

/-- The responses to the requests that have been handed on are on their way, or the peer is gone. -/
def Responds (callbacks : Callbacks) (s : HttpState) : Prop :=
  Over (responses callbacks s.history.reports) s ∧ s.conn.pollable.isDetached = true ∨
    Sending (responses callbacks s.history.reports) s

/-- A complete request is handed on. If the peer is still there, the parser starts anew. -/
theorem handleRequest_rule (hs : Responds callbacks s) (hclose : p.request.needClose = false) :
    wp (handleRequest callbacks (runWriteComplete callbacks.script depth) p)
      (fun _ t => t.history.reports = s.history.reports ++ [p.request] ∧
        Responds callbacks t ∧ (t.conn.pollable.isDetached = false →
          t.conn.context = some p.reset ∧ t.conn.inputBuffer = s.conn.inputBuffer)) Anything s := by
  let handed : HttpState :=
    { s with history.reports := s.history.reports ++ [p.request] }
  have hs' : Over (responses callbacks s.history.reports) handed ∧
      handed.conn.pollable.isDetached = true ∨
      Sending (responses callbacks s.history.reports) handed :=
    hs.imp (fun hover => ⟨hover.1.of_same rfl rfl rfl rfl, hover.2⟩)
      fun hsending => hsending.of_same rfl rfl rfl rfl rfl rfl rfl
  have hcalls := @runCalls_rule _ _ handed (responses callbacks s.history.reports) callbacks.script
    depth (callbacks.request s.history.reports.length p.request) hs'
  rw [← responses_append] at hcalls
  simp only [handleRequest, httpRequestCallback, wp_bind, wp_get, wp_modify]
  refine wp_mono hcalls (fun _ t ht => ?_) fun _ _ => id
  obtain ⟨hsends, haside⟩ := ht
  have hreports : t.history.reports = s.history.reports ++ [p.request] := haside.reports
  rw [← hreports] at hsends
  simp only [wp_ite, wp_bind, wp_get, wp_pure, wp_modify, hclose, Bool.false_eq_true, if_false]
  split
  · rename_i hshut
    refine ⟨hreports, hsends, fun hd => ?_⟩
    cases hsends with
    | inl hover =>
      rw [hover.2] at hd
      cases hd
    | inr hsending =>
      rw [hsending.opened] at hshut
      cases hshut
  · refine ⟨hreports, ?_, fun hd => ⟨trivial, (haside.input hd).1⟩⟩
    exact hsends.imp (fun hover => ⟨hover.1.of_same rfl rfl rfl rfl, hover.2⟩)
      fun hsending => hsending.of_same rfl rfl rfl rfl rfl rfl rfl

/-- The requests of a client: each of them is well formed, and none asks for the end of the
connection. -/
def WellFormed (requests : List (List UInt8 × HttpRequest)) : Prop :=
  ∀ r ∈ requests, FedAlone r.1 r.2 ∧ r.2.needClose = false

/-- What is known of a connection that has received `input`: it answers what it has handed on, which
are the first of `requests`, and is ready for the next one as long as it reads. -/
structure Serves (callbacks : Callbacks) (requests : List (List UInt8 × HttpRequest))
    (input : List UInt8) (s : HttpState) : Prop where
  handed : s.history.reports.map content <+: requests.map (content ·.2)
  responds : Over (responses callbacks s.history.reports) s ∧ s.conn.pollable.isReading = false ∨
    Sending (responses callbacks s.history.reports) s
  reads : s.conn.pollable.isReading = true → Reads requests input s

theorem Reads.handed (h : Reads requests input s) :
    s.history.reports.map content <+: requests.map (content ·.2) := by
  cases h with
  | next done more next rest hrequests hrest hbegun =>
    rw [hbegun.handed, hrequests, List.map_append]
    exact List.prefix_append _ _
  | all handed valid stream => exact handed ▸ List.prefix_refl _

theorem Reads.valid (h : Reads requests input s) : s.conn.inputBuffer.Valid := by
  cases h with
  | next done more next rest hrequests hrest hbegun => exact hbegun.valid
  | all handed valid stream => exact valid

/-- Between two requests, the connection is before the next one. -/
theorem reads_of_ready {done more : List (List UInt8 × HttpRequest)}
    (hrequests : requests = done ++ more) (hwell : WellFormed requests)
    (hhanded : s.history.reports.map content = done.map (content ·.2))
    (hcontext : s.conn.context = some .new) (hvalid : s.conn.inputBuffer.Valid)
    (hunread : s.conn.inputBuffer.unread = []) (hstream : input = (done.map (·.1)).flatten) :
    Reads requests input s := by
  cases more with
  | nil =>
    rw [List.append_nil] at hrequests
    rw [← hrequests] at hhanded hstream
    exact .all hhanded hvalid hstream
  | cons next more =>
    have hfed := (hwell next (by simp [hrequests])).1
    refine .next done more next next.1 hrequests ?_ ⟨hhanded, ⟨_, hcontext, ?_⟩, hvalid, ?_⟩
    · exact List.ne_nil_of_length_pos (length_pos_of_fedAlone hfed)
    · rw [hunread, List.nil_append]
      exact unfinished_of_fedAlone hfed
    · rw [hstream]

/-- What a read event leaves before it looks at the end of the stream. -/
structure Received (callbacks : Callbacks) (requests : List (List UInt8 × HttpRequest))
    (input : List UInt8) (s : HttpState) : Prop where
  handed : s.history.reports.map content <+: requests.map (content ·.2)
  responds : Responds callbacks s
  reads : s.conn.pollable.isDetached = false → Reads requests input s

/-- The message callback, when bytes of the next request have come. -/
theorem messageCallback_rule {done more : List (List UInt8 × HttpRequest)}
    {next : List UInt8 × HttpRequest} (hrequests : requests = done ++ next :: more)
    (hwell : WellFormed requests) (hs : Responds callbacks s)
    (hbegun : Begun done next input rest s) :
    wp (messageCallback callbacks (runWriteComplete callbacks.script depth) beyond timeStamp)
      (fun _ => Received callbacks requests input) Anything s := by
  obtain ⟨hhanded, ⟨p, hcontext, hunfinished⟩, hvalid, hstream⟩ := hbegun
  simp only [messageCallback, setTimeStamp, wp_bind, wp_modify, wp_get, hcontext, wp_liftPure]
  have hparsed : ∀ q c, Responds callbacks { s with
      conn.timeStamp := timeStamp, conn.context := some q, conn.inputBuffer := c } := fun q c =>
    hs.imp (fun hover => ⟨hover.1.of_same rfl rfl rfl rfl, hover.2⟩)
      fun hsending => hsending.of_same rfl rfl rfl rfl rfl rfl rfl
  by_cases hrest : rest = []
  · rw [hrest, List.append_nil] at hunfinished
    obtain ⟨q, c, hparse, hc, hunread, hsuccess, hcontent⟩ :=
      parse_of_unfinished beyond timeStamp hunfinished hvalid
    have hclose : q.request.needClose = false :=
      (congrArg HttpRequest.needClose hcontent).trans (hwell next (by simp [hrequests])).2
    have hreset : q.reset = .new := by
      simp [HttpParser.reset, HttpRequest.reset, hclose, HttpParser.new, HttpRequest.new]
    simp only [hparse, ends_ok, Bool.not_true, Bool.false_eq_true, if_false, hsuccess,
      if_true]
    refine wp_mono (handleRequest_rule (hparsed q c) hclose) (fun _ t ht => ?_) fun _ _ => id
    obtain ⟨hreports, hresponds, hready⟩ := ht
    have hdone : t.history.reports.map content = (done ++ [next]).map (content ·.2) := by
      rw [hreports, List.map_append, List.map_append, hhanded, List.map_singleton, hcontent]
      rfl
    have happend : requests = (done ++ [next]) ++ more := by
      rw [hrequests, List.append_assoc, List.singleton_append]
    refine ⟨?_, hresponds, fun hd => ?_⟩
    · rw [hdone, happend]
      exact (List.prefix_append _ _).map _
    · obtain ⟨hcontext', hinput⟩ := hready hd
      rw [hreset] at hcontext'
      refine reads_of_ready happend hwell hdone hcontext' (hinput ▸ hc) (hinput ▸ hunread) ?_
      rw [hrest, List.append_nil] at hstream
      rw [hstream, List.map_append, List.flatten_append, List.map_singleton, List.flatten_singleton]
  · obtain ⟨q, c, hparse, hc, hsuccess, hleft⟩ :=
      parse_of_incomplete beyond timeStamp hunfinished hrest hvalid
    simp only [hparse, ends_ok, Bool.not_true, Bool.false_eq_true, if_false, hsuccess,
      wp_pure]
    have hreads : Reads requests input { s with
        conn.timeStamp := timeStamp, conn.context := some q, conn.inputBuffer := c } :=
      .next done more next rest hrequests hrest ⟨hhanded, ⟨q, rfl, hleft⟩, hc, hstream⟩
    exact ⟨hreads.handed, hparsed q c, fun _ => hreads⟩

/-- The bytes of a client that does not run ahead: those that a connection has received, and
perhaps some of the next request. -/
def InStep (requests : List (List UInt8 × HttpRequest)) (input : List UInt8) (s : HttpState) :
    Prop :=
  input <+: ((requests.take (s.history.reports.length + 1)).map (·.1)).flatten

/-- The client has sent no more than the request that has been begun. -/
theorem Begun.taken_eq {done more : List (List UInt8 × HttpRequest)}
    {next : List UInt8 × HttpRequest} (h : Begun done next input rest s)
    (hrequests : requests = done ++ next :: more) :
    ((requests.take (s.history.reports.length + 1)).map (·.1)).flatten =
      (done.map (·.1)).flatten ++ next.1 := by
  have hlength : s.history.reports.length = done.length := by
    simpa using congrArg List.length h.handed
  have htake : requests.take (done.length + 1) = done ++ [next] := by
    rw [hrequests, List.take_length_add_append]
    rfl
  rw [hlength, htake, List.map_append, List.flatten_append, List.map_singleton,
    List.flatten_singleton]

/-- Bytes that are in step are those of the request that comes next. -/
theorem Reads.receive (h : Reads requests input s) (hstep : InStep requests (input ++ data) s)
    (hdata : data ≠ []) (hcontext : t.conn.context = s.conn.context)
    (hvalid : t.conn.inputBuffer.Valid)
    (hunread : t.conn.inputBuffer.unread = s.conn.inputBuffer.unread ++ data)
    (hreports : t.history.reports = s.history.reports) :
    ∃ done more next rest, requests = done ++ next :: more ∧
      Begun done next (input ++ data) rest t := by
  cases h with
  | next done more next rest hrequests hrest hbegun =>
    rw [InStep, hbegun.taken_eq hrequests, ← hbegun.stream, List.prefix_append_right_inj] at hstep
    obtain ⟨hhanded, ⟨p, hparser, hunfinished⟩, _, hstream⟩ := hbegun
    obtain ⟨left, rfl⟩ := hstep
    refine ⟨done, more, next, left, hrequests, hreports ▸ hhanded, ⟨p, hcontext ▸ hparser, ?_⟩,
      hvalid, ?_⟩
    · rw [hunread, List.append_assoc]
      exact hunfinished
    · rw [List.append_assoc]
      exact hstream
  | all handed valid stream =>
    have hlength : s.history.reports.length = requests.length := by
      simpa using congrArg List.length handed
    rw [InStep, hlength, List.take_of_length_le (Nat.le_succ _), ← stream] at hstep
    have hle := hstep.length_le
    rw [List.length_append] at hle
    exact absurd (List.length_eq_zero_iff.mp (by omega)) hdata

/-- Between two messages, nothing that the parser knows changes. -/
theorem Reads.of_same (h : Reads requests input s) (hcontext : t.conn.context = s.conn.context)
    (hvalid : t.conn.inputBuffer.Valid)
    (hunread : t.conn.inputBuffer.unread = s.conn.inputBuffer.unread)
    (hreports : t.history.reports = s.history.reports) : Reads requests input t := by
  cases h with
  | next done more next rest hrequests hrest hbegun =>
    obtain ⟨hhanded, hparser, _, hstream⟩ := hbegun
    rw [← hcontext, ← hunread] at hparser
    exact .next done more next rest hrequests hrest ⟨hreports ▸ hhanded, hparser, hvalid, hstream⟩
  | all handed valid stream => exact .all (hreports ▸ handed) hvalid stream

theorem receiveAndProcess_rule {recvs : List RecvResult} (hwell : WellFormed requests)
    (hs : Responds callbacks s) (hreads : Reads requests input s)
    (hstep : InStep requests (input ++ received recvs) s) :
    wp (receiveAndProcess recvs
      (messageCallback callbacks (runWriteComplete callbacks.script depth) beyond timeStamp))
      (fun _ => Received callbacks requests (input ++ received recvs)) Anything s := by
  rw [receiveAndProcess, receiveAllData, wp_bind]
  refine wp_mono (receiveLoop_received hreads.valid) ?_ fun _ _ _ => trivial
  intro total _ ht
  obtain ⟨htotal, b, hb, hunread, rfl⟩ := ht
  rw [Nat.zero_add] at htotal
  have hresponds : Responds callbacks
      { s with conn.inputBuffer := b, conn.pollable := pollableAfter recvs s } :=
    hs.imp (fun hover => ⟨hover.1.receive recvs b _,
      (pollableAfter_isDetached recvs s).trans hover.2⟩) fun hsending => hsending.receive recvs b _
  simp only [wp_ite, wp_pure]
  split
  · rename_i hsome
    have hdata : received recvs ≠ [] :=
      List.ne_nil_of_length_pos (htotal ▸ Nat.pos_of_ne_zero hsome)
    obtain ⟨done, more, next, rest, hrequests, hbegun⟩ :=
      hreads.receive hstep hdata (t := { s with
        conn.inputBuffer := b, conn.pollable := pollableAfter recvs s }) rfl hb hunread rfl
    exact messageCallback_rule hrequests hwell hresponds hbegun
  · rename_i hnone
    have hnil : received recvs = [] := by
      rw [← List.length_eq_zero_iff]
      omega
    rw [hnil, List.append_nil] at hunread ⊢
    exact ⟨hreads.handed, hresponds, fun _ => hreads.of_same rfl hb hunread rfl⟩

theorem Received.serves (h : Received callbacks requests input s) :
    Serves callbacks requests input s where
  handed := h.handed
  responds := h.responds.imp_left fun hover =>
    ⟨hover.1, PollableFileDescriptor.isReading_of_detached _ hover.2⟩
  reads hreading := h.reads (s.conn.pollable.reading_attached hreading)

theorem readEvent_serves {recvs : List RecvResult} (hwell : WellFormed requests)
    (hs : Responds callbacks s) (hreads : Reads requests input s)
    (hstep : InStep requests (input ++ received recvs) s) :
    wp (readEventCallback (runWriteComplete callbacks.script depth) recvs
      (messageCallback callbacks (runWriteComplete callbacks.script depth) beyond timeStamp))
      (fun _ => Serves callbacks requests (input ++ received recvs)) Anything s := by
  have hsends : ∀ t, Received callbacks requests (input ++ received recvs) t →
      Over (responses callbacks t.history.reports) t ∨
      Sending (responses callbacks t.history.reports) t := fun _ ht => ht.responds.imp_left And.left
  refine wp_mono (readEvent_rule (receiveAndProcess_rule hwell hs hreads hstep) hsends)
    (fun _ u hu => ?_) fun _ _ => id
  obtain ⟨t, ht, hsame | hended⟩ := hu
  · rw [hsame]
    exact ht.serves
  · obtain ⟨hreading, hsends, hreports⟩ := hended
    refine ⟨hreports ▸ ht.handed, ?_, fun hread => ?_⟩
    · rw [hreports]
      exact hsends.imp_left fun hover => ⟨hover, hreading⟩
    · rw [hreading] at hread
      cases hread

/-- While a connection is live, its parser stays. -/
theorem kept_context {context : Option HttpParser} : Kept (fun s : HttpState => Closed s ∨
    s.conn.context = context) (fun s => Closed s ∨ s.conn.context = context) Anything := by
  have hstable : Stable (κ := HttpParser) (ρ := HttpRequest) fun s => Closed s ∨
      s.conn.context = context :=
    { count := fun _ hs => hs
      record := fun _ _ hs => hs
      took := fun _ _ _ hs => hs
      answered := fun _ _ hs => hs
      pollable := fun _ _ _ hd hs => hs.imp_left fun hclosed => hclosed.imp_left hd
      input := fun _ _ hs => hs
      output := fun _ _ _ hs => hs
      closed := fun _ _ hs => hs
      aborted := fun _ _ => .inl (.inr rfl) }
  exact hstable.kept_of_shut (fun _ _ _ => trivial) fun _ _ _ => .inl (.inr rfl)

theorem writeEvent_serves (hs : Serves callbacks requests input s) :
    wp (writeEventCallback (runWriteComplete callbacks.script depth))
      (fun _ => Serves callbacks requests input) Anything s := by
  cases hs.responds with
  | inl hover =>
    refine wp_mono (writeEvent_over hover.1.closed) (fun _ t ht => ?_) fun _ _ => id
    rwa [ht]
  | inr hsending =>
    have hparser := kept_context.writeEvent (@Kept.runWriteComplete _ _ callbacks.script depth _
      kept_context) kept_context.runWriteComplete s (.inr rfl)
    refine wp_mono (wp_and (writeEvent_rule hsending) hparser) (fun _ t ht => ?_)
      fun _ _ _ => trivial
    obtain ⟨⟨hsends, haside⟩, hparser⟩ := ht
    rw [← haside.reports] at hsends
    refine ⟨haside.reports ▸ hs.handed, hsends, fun hreading => ?_⟩
    have hstill : Sending (responses callbacks t.history.reports) t := by
      refine hsends.resolve_left fun hover => ?_
      rw [hover.2] at hreading
      cases hreading
    obtain ⟨hinput, hreads⟩ := haside.input hstill.attached
    have hbefore := hs.reads (hreads ▸ hreading)
    exact hbefore.of_same (hparser.resolve_left hstill.not_closed) (hinput ▸ hbefore.valid)
      (congrArg _ hinput) haside.reports

/-- The bytes that a dispatch brings. -/
def HttpDispatch.bytes (d : HttpDispatch) : List UInt8 :=
  if has d.activeEvents eventTypeRead then received d.recvs else []

theorem dispatch_serves {d : HttpDispatch} (hwell : WellFormed requests)
    (hs : Serves callbacks requests input s)
    (hpolled : has d.activeEvents eventTypeRead = true → s.conn.pollable.isReading = true)
    (hstep : InStep requests (input ++ d.bytes) s) :
    wp (dispatch callbacks depth d) (fun _ => Serves callbacks requests (input ++ d.bytes))
      Anything s := by
  -- before the read event, the connection may have been detached by a close event
  let Before : HttpState → Prop := fun t => Serves callbacks requests input t ∧
    t.history.reports = s.history.reports ∧ (has d.activeEvents eventTypeRead = true →
      Responds callbacks t ∧ Reads requests input t)
  have hstart : Before s := by
    refine ⟨hs, rfl, fun hread => ⟨?_, hs.reads (hpolled hread)⟩⟩
    refine .inr (hs.responds.resolve_left fun hover => ?_)
    rw [hpolled hread] at hover
    cases hover.2
  have hclose : wp closeEventCallback (fun _ => Before) Anything s := by
    have hdetached : s.conn.pollable.detachFromPoller.isDetached = true :=
      PollableFileDescriptor.detachFromPoller_isDetached _
    have htaken : s.history.accepted <+: responses callbacks s.history.reports :=
      hs.responds.elim (fun hover => hover.1.taken) Sending.taken
    have hcallback : s.conn.writeCompleteCallback = none :=
      hs.responds.elim (fun hover => hover.1.callback) Sending.callback
    have hreading := PollableFileDescriptor.isReading_of_detached _ hdetached
    refine ⟨⟨hs.handed, .inl ⟨⟨.inl hdetached, htaken, hcallback⟩, hreading⟩, fun hread => ?_⟩, rfl,
      fun hread => ⟨.inl ⟨⟨.inl hdetached, htaken, hcallback⟩, hdetached⟩, ?_⟩⟩
    · exact absurd (hreading.symm.trans hread) (by decide)
    · have hreads := hs.reads (hpolled hread)
      exact hreads.of_same rfl hreads.valid rfl rfl
  refine wp_seq (I := Before) (Kept.dispatchEvent hstart fun _ => hclose) fun _ t ht => ?_
  refine wp_seq (I := Before)
    (Kept.dispatchEvent ht fun _ => show wp errorEventCallback _ _ _ from ht) fun _ t ht => ?_
  obtain ⟨hserves, hreports, hbefore⟩ := ht
  refine wp_seq (I := Serves callbacks requests (input ++ d.bytes)) ?_ fun _ t ht => ?_
  · rw [HttpDispatch.bytes, InStep, ← hreports] at hstep
    cases hread : has d.activeEvents eventTypeRead with
    | true =>
      obtain ⟨hresponds, hreads⟩ := hbefore hread
      rw [if_pos hread] at hstep
      simp only [dispatchEvent, HttpDispatch.bytes, hread, if_true]
      exact readEvent_serves hwell hresponds hreads hstep
    | false =>
      simp only [dispatchEvent, HttpDispatch.bytes, hread, Bool.false_eq_true, if_false,
        List.append_nil]
      exact hserves
  · exact Kept.dispatchEvent ht fun _ => writeEvent_serves ht

/-- A connection, what it has received, and its socket. -/
structure LockStep where
  state : HttpState
  input : List UInt8
  socket : Socket

/-- Bytes of the client arrive in step, the kernel takes bytes away, the client goes, `epoll`
reports, or the server drops the connection. -/
inductive LockStep.Step (callbacks : Callbacks) (depth : Nat)
    (requests : List (List UInt8 × HttpRequest)) : LockStep → LockStep → Prop
  | arrive {x} (data : List UInt8)
      (h : InStep requests (x.input ++ (x.socket.incoming ++ data)) x.state) :
      Step callbacks depth requests x { x with socket := x.socket.arrive x.state data }
  | finish {x} : Step callbacks depth requests x { x with socket := x.socket.finish x.state }
  | drain {x} : Step callbacks depth requests x { x with socket := x.socket.drain x.state }
  | hangUp {x} : Step callbacks depth requests x { x with socket.pending := true }
  | dispatch {x t} (d : HttpDispatch)
      (hreports : x.socket.Reports x.state d.activeEvents d.recvs) (hanswers : t.kernel.sends ≠ [])
      (h : HttpServer.dispatch callbacks depth d { x.state with kernel := d.kernel } = .ok () t) :
      Step callbacks depth requests x ⟨t, x.input ++ d.bytes,
        (x.socket.reported d.activeEvents).after x.state t d.kernel.sends⟩
  | abort {x t} (kernel : Kernel) (hanswers : t.kernel.sends ≠ [])
      (h : abortFromEventLoop { x.state with kernel := kernel } = .ok () t) :
      Step callbacks depth requests x
        ⟨t, x.input, x.socket.after x.state t kernel.sends⟩

namespace LockStep

/-- No event is pending, the kernel has room, and the client's next request has arrived. -/
structure Settled (requests : List (List UInt8 × HttpRequest)) (x : LockStep) : Prop where
  quiet : x.socket.pending = false
  room : x.socket.full = false
  delivered : x.input ++ x.socket.incoming =
    ((requests.take (x.state.history.reports.length + 1)).map (·.1)).flatten

structure Sound (callbacks : Callbacks) (requests : List (List UInt8 × HttpRequest))
    (x : LockStep) : Prop where
  serves : Serves callbacks requests x.input x.state
  watched : x.socket.Watched x.state
  inStep : InStep requests (x.input ++ x.socket.incoming) x.state

end LockStep

/-- The requests that have been handed on are not taken back. -/
theorem dispatch_grows {n : Nat} (d : HttpDispatch) :
    Keeps (fun s => n ≤ s.history.reports.length) Anything (dispatch callbacks depth d) := by
  have hstable : Stable (κ := HttpParser) (ρ := HttpRequest)
      fun s => n ≤ s.history.reports.length :=
    { count := fun _ hs => hs
      record := fun _ _ hs => hs
      took := fun _ _ _ hs => hs
      answered := fun _ _ hs => hs
      pollable := fun _ _ _ _ hs => hs
      input := fun _ _ hs => hs
      output := fun _ _ _ hs => hs
      closed := fun _ _ hs => hs
      aborted := fun _ hs => hs }
  have hkept : Kept (fun s : HttpState => n ≤ s.history.reports.length)
      (fun s => n ≤ s.history.reports.length) Anything :=
    hstable.kept_of_shut (fun _ _ _ => trivial) fun _ _ => id
  intro s hs
  have hsame : ∀ s t, SameOutput s t → n ≤ s.history.reports.length →
      n ≤ t.history.reports.length := fun s t hsame ht =>
    Nat.le_trans ht hsame.reports.length_le
  refine hkept.dispatch hkept.runWriteComplete hkept.runWriteComplete
    (messageCallback_keeps hkept hsame ?_ _ _) hs fun _ => hs
  exact fun t ht => abortFromEventLoop_rule (fun _ _ => ht) (fun _ _ _ => trivial)
    fun _ _ _ _ _ _ => trivial

theorem InStep.mono (h : InStep requests input s)
    (hreports : s.history.reports.length ≤ t.history.reports.length) :
    InStep requests input t := by
  have htake : requests.take (s.history.reports.length + 1) <+:
      requests.take (t.history.reports.length + 1) :=
    List.take_prefix_take_left (Nat.succ_le_succ hreports)
  have hstream : (requests.take (s.history.reports.length + 1)).map (·.1) <+:
      (requests.take (t.history.reports.length + 1)).map (·.1) := htake.map _
  exact h.trans hstream.flatten

namespace LockStep

variable {x y : LockStep}

theorem Sound.step (hwell : WellFormed requests) (h : Sound callbacks requests x)
    (hstep : Step callbacks depth requests x y) : Sound callbacks requests y := by
  obtain ⟨hserves, hwatched, hinStep⟩ := h
  cases hstep with
  | arrive data hdata => exact ⟨hserves, hwatched.arrive data, hdata⟩
  | finish => exact ⟨hserves, hwatched.finish, hinStep⟩
  | drain => exact ⟨hserves, hwatched.drain, hinStep⟩
  | hangUp => exact ⟨hserves, ⟨fun _ => .inl rfl, fun _ _ => .inl rfl⟩, hinStep⟩
  | @dispatch t d hreports hanswers hrun =>
    have hready : Serves callbacks requests x.input { x.state with kernel := d.kernel } :=
      ⟨hserves.handed, hserves.responds.imp
        (fun hover => ⟨hover.1.of_same rfl rfl rfl rfl, hover.2⟩)
        fun hsending => hsending.of_same rfl rfl rfl rfl rfl rfl rfl,
        fun hreading => (hserves.reads hreading).of_same rfl (hserves.reads hreading).valid rfl rfl⟩
    have hreceived : InStep requests
        ((x.input ++ d.bytes) ++ (x.socket.reported d.activeEvents).incoming) x.state :=
      hreports.received_prefix hinStep
    have hbytes : InStep requests (x.input ++ d.bytes) { x.state with kernel := d.kernel } :=
      (List.prefix_append _ _).trans hreceived
    have hserved := wp_of_ok (dispatch_serves hwell hready hreports.isReading hbytes) hrun
    have hgrows : x.state.history.reports.length ≤ t.history.reports.length :=
      wp_of_ok (Q := fun _ t => x.state.history.reports.length ≤ t.history.reports.length)
        (dispatch_grows d { x.state with kernel := d.kernel } (Nat.le_refl _)) hrun
    refine ⟨hserved, ?_, hreceived.mono hgrows⟩
    refine Socket.watched_of_dispatch (u := { x.state with kernel := d.kernel }) hreports rfl hrun
      (messageCallback_keeps kept_waits (fun s t hsame hs => ?_) (fun s hs => abort_waits hs) _ _)
      (messageCallback_keeps kept_notReading (fun s t hsame hs => ?_) (fun s hs => ?_) _ _)
    · exact hs.of_same hsame.sends (by rw [hsame.pollable])
    · rw [hsame.pollable]
      exact hs
    · exact wp_abort fun _ hd => PollableFileDescriptor.isReading_of_detached _ hd
  | @abort t kernel hanswers hrun =>
    have habort := abort_over (s := { x.state with kernel := kernel })
      (hserves.responds.elim (fun hover => hover.1.taken) Sending.taken)
      (hserves.responds.elim (fun hover => hover.1.callback) Sending.callback)
    obtain ⟨⟨hover, hdetached⟩, hreports⟩ := wp_of_ok habort hrun
    have hsame : t.history.reports = x.state.history.reports := hreports
    have hreading := PollableFileDescriptor.isReading_of_detached _ hdetached
    refine ⟨⟨hsame ▸ hserves.handed, ?_, fun hread => ?_⟩, Socket.watched_of_detached hdetached, ?_⟩
    · rw [hsame]
      exact .inl ⟨hover, hreading⟩
    · exact absurd (hreading.symm.trans hread) (by decide)
    · exact hinStep.mono (Nat.le_of_eq (congrArg _ hsame.symm))

/-- Whatever the client sends in step and whenever it arrives, the server has handed on the first
of the requests, and the kernel has taken the first of the bytes that answer them. Once an open
connection is settled, all the requests have been handed on, and all the responses are out. -/
theorem served_of_settled {timeStamp : Int} (hwell : WellFormed requests)
    (hr : Reaches (Step callbacks depth requests)
      ⟨(connected timeStamp false).state, [], .registered [] false⟩ x) :
    x.state.history.reports.map content <+: requests.map (content ·.2) ∧
    x.state.history.accepted <+: responses callbacks x.state.history.reports ∧
    (Opened x.state → x.Settled requests →
      x.state.history.reports.map content = requests.map (content ·.2) ∧
      x.state.history.accepted = responses callbacks x.state.history.reports) := by
  have hsound : Sound callbacks requests x := by
    refine hr.invariant (I := Sound callbacks requests) ?_ fun _ _ h hstep => h.step hwell hstep
    have hready : Reads requests [] (connected timeStamp false).state :=
      reads_of_ready (List.nil_append _).symm hwell rfl rfl MutableSizeTcpBuffer.valid_new rfl rfl
    refine ⟨⟨List.nil_prefix, .inr ?_, fun _ => hready⟩, ?_, List.nil_prefix⟩
    · exact ⟨rfl, rfl, ⟨MutableSizeTcpBuffer.valid_new, rfl, fun _ => rfl⟩, rfl, rfl⟩
    · exact ⟨fun _ => .inr rfl, fun _ hwriting => by cases hwriting⟩
  obtain ⟨hserves, hwatched, hinStep⟩ := hsound
  refine ⟨hserves.handed, ?_, fun hopen hsettled => ?_⟩
  · exact hserves.responds.elim (fun hover => hover.1.taken) Sending.taken
  · obtain ⟨hnone, hsent⟩ := hwatched.idle hopen (hserves.responds.imp_left And.left)
      hsettled.quiet hsettled.room
    refine ⟨?_, hsent⟩
    have hdelivered := hsettled.delivered
    rw [hnone, List.append_nil] at hdelivered
    cases hserves.reads hopen.reading with
    | all handed valid stream => exact handed
    | next done more next rest hrequests hrest hbegun =>
      -- all of the next request has arrived, so that it is not waited for
      rw [hbegun.taken_eq hrequests, ← hbegun.stream] at hdelivered
      exact absurd (List.self_eq_append_right.mp hdelivered) hrest

/-- A request is sent, handed on and answered. -/
theorem served_of_settled_get : ∃ x : LockStep,
    x.state.history.reports.length = 1 ∧ x.state.history.accepted = bytes "ok" := by
  let get : List UInt8 × HttpRequest := (bytes "GET / HTTP/1.1\r\n\r\n",
    { HttpRequest.new with method := .get, path := bytes "/", version := .http11 })
  let callbacks : Callbacks := ⟨fun _ _ => [bytes "ok"], fun _ => []⟩
  let start : HttpState := (connected 0 false).state
  let d : HttpDispatch := ⟨epollIn, [.read get.1, .error .EAGAIN],
    ⟨[.accepted 2, .error .EAGAIN], [], []⟩, 1, fun _ => 0⟩
  let arrived : Socket := (Socket.registered [] false).arrive start get.1
  have hrun : ∃ t, HttpServer.dispatch callbacks 1 d { start with kernel := d.kernel } = .ok () t ∧
      t.conn.pollable.isReading = true ∧ t.conn.isWriteEndShutdown = false ∧
      t.conn.pollable.isWriting = false ∧ t.kernel.sends = [.error .EAGAIN] ∧
      t.history.reports.length = 1 ∧ responses callbacks t.history.reports = bytes "ok" := by
    have hafter : ∃ a, afterDispatch callbacks 1 start d = a ∧ a.halted = none ∧
        a.state.conn.pollable.isReading = true ∧ a.state.conn.isWriteEndShutdown = false ∧
        a.state.conn.pollable.isWriting = false ∧ a.state.kernel.sends = [.error .EAGAIN] ∧
        a.state.history.reports.length = 1 ∧
        responses callbacks a.state.history.reports = bytes "ok" := ⟨_, rfl, by decide +kernel⟩
    obtain ⟨a, ha, hnone, hall⟩ := hafter
    rw [afterDispatch] at ha
    cases hd : HttpServer.dispatch callbacks 1 d { start with kernel := d.kernel } with
    | ok _ t =>
      rw [hd] at ha
      subst ha
      exact ⟨t, rfl, hall⟩
    | error e t =>
      rw [hd] at ha
      subst ha
      cases hnone
  obtain ⟨t, hrun, hreading, hopen, hidle, hsends, hone, hok⟩ := hrun
  have hwell : WellFormed [get] := by
    intro r hr
    rw [List.mem_singleton.mp hr]
    exact ⟨fedAlone_get, rfl⟩
  have hreports : arrived.Reports start d.activeEvents d.recvs :=
    ⟨rfl, by decide +kernel, by decide +kernel, fun _ => ⟨rfl, rfl⟩⟩
  have hinStep : InStep [get] get.1 start := List.prefix_refl _
  let settled : LockStep := ⟨t, [] ++ d.bytes, (arrived.reported d.activeEvents).after start t
    d.kernel.sends⟩
  have hr : Reaches (Step callbacks 1 [get]) ⟨start, [], .registered [] false⟩ settled :=
    .head (.arrive get.1 hinStep)
      (.single (.dispatch d hreports (hsends ▸ List.cons_ne_nil _ _) hrun))
  have hsettled : settled.Settled [get] := by
    refine ⟨?_, ?_, ?_⟩
    · simp [settled, Socket.after, Socket.reported, hidle]
    · simp [settled, Socket.after, hsends, d, isFull]
    · have hread : has d.activeEvents eventTypeRead = true := by decide +kernel
      have hbytes : d.bytes = get.1 := if_pos hread
      have hone' : settled.state.history.reports.length = 1 := hone
      rw [hone']
      simp [settled, hbytes, Socket.after, Socket.reported, hread]
  obtain ⟨_, _, hserved⟩ := served_of_settled hwell hr
  obtain ⟨_, hsent⟩ := hserved ⟨hreading, hopen⟩ hsettled
  exact ⟨settled, hone, hsent.trans hok⟩

end LockStep

end XubinhServer.HttpServer

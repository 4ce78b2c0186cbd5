import XubinhServer.Http.Incremental
import XubinhServer.Http.Server
import XubinhServer.Lib.OnePerArrival

/-! Several requests on one connection. A read event hands on at most one request, and what has
been received behind it waits for the next read event. -/
namespace XubinhServer

open Halting EventPoller TcpConnectSocketfd Transition

namespace TcpConnectSocketfd

variable {κ ρ : Type}

/-- Where the kernel takes everything and nobody waits for the end of the output, sending changes
the record of the calls and nothing else. -/
theorem runCalls_accepted {script : Nat → List Call} {depth : Nat} {data : List (List UInt8)}
    {s : State κ ρ} (hd : s.conn.pollable.isDetached = false)
    (hw : s.conn.pollable.isWriting = false) (hc : s.conn.writeCompleteCallback = none)
    (hk : s.kernel.sends = []) :
    wp (runCalls (runWriteComplete script depth) (data.map .send))
      (fun _ t => t.conn = s.conn ∧ t.kernel = s.kernel ∧ t.history.reports = s.history.reports)
      (fun _ _ => False) s := by
  induction data generalizing s with
  | nil => exact ⟨rfl, rfl, rfl⟩
  | cons bytes data ih =>
    have hcomplete : ∀ t : State κ ρ, t.conn = s.conn →
        wp (runWriteComplete script depth) (fun _ u => u = t) (fun _ _ => False) t := by
      intro t ht
      cases depth <;> simp [runWriteComplete, ht, hc]
    have hsend : wp (send (runWriteComplete script depth) bytes)
        (fun _ t => t.conn = s.conn ∧ t.kernel = s.kernel ∧
          t.history.reports = s.history.reports) (fun _ _ => False) s := by
      simp only [send, record, wp_bind, wp_modify, wp_get, wp_ite, hd, hw, sendAsManyData, hk,
        sendLoop, accept, wp_pure, Bool.false_eq_true, if_false, if_true]
      split
      · rename_i hzero
        rw [if_pos hzero.symm]
        refine wp_mono (hcomplete _ rfl) ?_ fun _ _ => id
        intro _ _ heq
        subst heq
        exact ⟨rfl, rfl, rfl⟩
      · refine wp_mono (hcomplete _ rfl) ?_ fun _ _ => id
        intro _ _ heq
        subst heq
        exact ⟨rfl, rfl, rfl⟩
    refine wp_seq (f := fun _ => runCalls (runWriteComplete script depth) (data.map .send)) hsend ?_
    intro _ t h
    obtain ⟨hconn, hkernel, hreports⟩ := h
    rw [← hconn] at hd hw hc
    rw [← hkernel] at hk
    rw [← hconn, ← hkernel, ← hreports]
    exact ih hd hw hc hk

end TcpConnectSocketfd

namespace HttpServer

/-- The content of a request: all but the time at which it was received. -/
def content (r : HttpRequest) : HttpRequest := { r with receiveTimePoint := 0 }

/-- An open connection with parser `p` and unread input `u`, whose output is all sent. -/
structure Idle (p : HttpParser) (u : List UInt8) (s : HttpState) : Prop where
  detached : s.conn.pollable.isDetached = false
  reading : s.conn.pollable.isReading = true
  writing : s.conn.pollable.isWriting = false
  writeEnd : s.conn.isWriteEndShutdown = false
  callback : s.conn.writeCompleteCallback = none
  context : s.conn.context = some p
  valid : s.conn.inputBuffer.Valid
  unread : s.conn.inputBuffer.unread = u

/-- An event that brings bytes, and a kernel that accepts all sends. -/
structure ReadEvent (d : HttpDispatch) : Prop where
  read : has d.activeEvents eventTypeRead = true
  write : has d.activeEvents eventTypeWrite = false
  close : has d.activeEvents eventTypeClose = false
  sends : d.kernel.sends = []
  opened : endsStream d.recvs = false
  received : received d.recvs ≠ []

section Message
variable (callbacks : Callbacks) (depth : Nat) {d : HttpDispatch} {s : HttpState}
  {p q : HttpParser} {u v : List UInt8}

/-- A complete request is handed on, and the parser starts anew. -/
theorem handleRequest_idle (hs : Idle q u s) (hk : s.kernel.sends = [])
    (hclose : q.request.needClose = false) :
    wp (handleRequest callbacks (runWriteComplete callbacks.script depth) q)
      (fun _ t => Idle q.reset u t ∧ t.history.reports = s.history.reports ++ [q.request])
      (fun _ _ => False) s := by
  simp only [handleRequest, httpRequestCallback, wp_bind, wp_get, wp_modify]
  refine wp_mono (runCalls_accepted hs.detached hs.writing hs.callback hk) ?_ fun _ _ => id
  intro _ h hboth
  obtain ⟨conn, kernel, history⟩ := h
  obtain ⟨rfl, -, hreports⟩ := hboth
  simp only [wp_bind, wp_get, hs.writeEnd, hclose, Bool.false_eq_true, if_false, wp_modify]
  exact ⟨⟨hs.detached, hs.reading, hs.writing, rfl, hs.callback, rfl, hs.valid, hs.unread⟩,
    hreports⟩

/-- What a read event leaves of a connection: the requests handed on, the parser and the bytes
behind what it has eaten. -/
def After (q : HttpParser) (v : List UInt8) (s t : HttpState) : Prop :=
  if q.isSuccess then
    Idle q.reset v t ∧ t.history.reports = s.history.reports ++ [q.request]
  else Idle q v t ∧ t.history.reports = s.history.reports

theorem messageCallback_after (hs : Idle p u s) (hk : s.kernel.sends = [])
    (hclose : q.isSuccess = true → q.request.needClose = false) {beyond : Nat → UInt8}
    {timeStamp : Int} {c : MutableSizeTcpBuffer} (hc : c.Valid) (hv : c.unread = v)
    (hparse : p.parse beyond timeStamp s.conn.inputBuffer = .ok (true, q, c)) :
    wp (messageCallback callbacks (runWriteComplete callbacks.script depth) beyond timeStamp)
      (fun _ t => After q v s t) (fun _ _ => False) s := by
  simp only [messageCallback, setTimeStamp, wp_bind, wp_modify, wp_get, hs.context, wp_liftPure,
    hparse, ends_ok, Bool.not_true, Bool.false_eq_true, if_false, After]
  have hidle : Idle q v { s with
      conn.timeStamp := timeStamp, conn.context := some q, conn.inputBuffer := c } :=
    ⟨hs.detached, hs.reading, hs.writing, hs.writeEnd, hs.callback, rfl, hc, hv⟩
  cases hsuccess : q.isSuccess with
  | true =>
    simp only [if_true]
    exact handleRequest_idle callbacks depth hidle hk (hclose hsuccess)
  | false =>
    simp only [Bool.false_eq_true, if_false]
    exact ⟨hidle, rfl⟩

/-- A read event receives all its bytes and runs the message callback once. -/
theorem dispatch_after (hs : Idle p u s) (hd : ReadEvent d)
    (hclose : q.isSuccess = true → q.request.needClose = false)
    (hparse : ∀ b : MutableSizeTcpBuffer, b.Valid → b.unread = u ++ received d.recvs →
      ∃ c : MutableSizeTcpBuffer, c.Valid ∧ c.unread = v ∧
        p.parse d.beyond d.timeStamp b = .ok (true, q, c)) :
    wp (dispatch callbacks depth d) (fun _ t => After q v s t) (fun _ _ => False)
      { s with kernel := d.kernel } := by
  have hreceive := @receiveLoop_received _ _ { s with kernel := d.kernel } d.recvs 0 hs.valid
  simp only [pollableAfter, hd.opened, Bool.false_eq_true, if_false] at hreceive
  simp only [dispatch, dispatchActiveEvents, dispatchEvent, hd.read, hd.write, hd.close,
    errorEventCallback, ite_self, wp_bind, wp_pure, Bool.false_eq_true, if_false, if_true,
    readEventCallback, receiveAndProcess, receiveAllData]
  refine wp_mono hreceive ?_ fun _ _ => id
  intro n _ h
  obtain ⟨hn, b, hb, hunread, rfl⟩ := h
  have hdata : n ≠ 0 := by
    have hpos := List.length_pos_of_ne_nil hd.received
    omega
  obtain ⟨c, hc, hv, hok⟩ := hparse b hb (by rw [hunread, hs.unread])
  simp only [if_pos hdata]
  have hidle : Idle p b.unread { s with kernel := d.kernel, conn.inputBuffer := b } :=
    ⟨hs.detached, hs.reading, hs.writing, hs.writeEnd, hs.callback, hs.context, hb, rfl⟩
  refine wp_mono (messageCallback_after callbacks depth hidle hd.sends hclose hc hv hok) ?_
    fun _ _ => id
  intro _ t ht
  have hreading : t.conn.pollable.isReading = true := by
    rw [After] at ht
    split at ht
    · exact ht.1.reading
    · exact ht.1.reading
  simp only [wp_bind, wp_get, wp_pure, if_pos hreading]
  exact ht

theorem afterDispatch_after (hs : Idle p u s) (hd : ReadEvent d)
    (hclose : q.isSuccess = true → q.request.needClose = false)
    (hparse : ∀ b : MutableSizeTcpBuffer, b.Valid → b.unread = u ++ received d.recvs →
      ∃ c : MutableSizeTcpBuffer, c.Valid ∧ c.unread = v ∧
        p.parse d.beyond d.timeStamp b = .ok (true, q, c)) :
    ∃ t, afterDispatch callbacks depth s d = ⟨t, none⟩ ∧ After q v s t := by
  obtain ⟨a, t, hok, ht⟩ := ok_of_wp (dispatch_after callbacks depth
    hs hd hclose hparse)
  exact ⟨t, by rw [afterDispatch, hok], ht⟩

/-- The parser that has eaten all but the bytes `rest` of a request with this content. -/
def Unfinished (p : HttpParser) (rest : List UInt8) (request : HttpRequest) : Prop :=
  p.Reading ∧ ∃ timeStamp q, p.Completes timeStamp rest q [] ∧
    content q.request = content request

/-- An event that brings the rest of a request, and `more`. -/
theorem afterDispatch_complete {rest more : List UInt8} {request : HttpRequest}
    (hs : Idle p u s) (hd : ReadEvent d) (hp : Unfinished p rest request)
    (hclose : request.needClose = false) (hdata : u ++ received d.recvs = rest ++ more) :
    ∃ t r, afterDispatch callbacks depth s d = ⟨t, none⟩ ∧ Idle .new more t ∧
      t.history.reports = s.history.reports ++ [r] ∧ content r = content request := by
  obtain ⟨hreading, timeStamp, q, hcompletes, hcontent⟩ := hp
  have hq := HttpParser.completes_stamped d.timeStamp hcompletes hreading
  have hneed : (q.stamped d.timeStamp).request.needClose = false := by
    have hsame := congrArg HttpRequest.needClose hcontent
    exact hsame.trans hclose
  have hsuccess : (q.stamped d.timeStamp).isSuccess = true := decide_eq_true hq.1
  obtain ⟨t, ht, hafter⟩ := afterDispatch_after callbacks depth
    (q := q.stamped d.timeStamp) (v := more) hs hd (fun _ => hneed) fun b hb hunread => by
      apply HttpParser.parse_of_completes _ hreading hb
      refine ⟨hq.1, ?_⟩
      rw [hunread, hdata]
      exact HttpParser.reaches_append hq.2 more
  rw [After, if_pos hsuccess] at hafter
  refine ⟨t, _, ht, ?_, hafter.2, hcontent⟩
  have hreset : (q.stamped d.timeStamp).reset = .new := by
    simp [HttpParser.reset, HttpRequest.reset, hneed, HttpParser.new, HttpRequest.new]
  rw [← hreset]
  exact hafter.1

/-- An event that leaves the bytes `w` of a request to come. -/
theorem afterDispatch_incomplete {w : List UInt8} {request : HttpRequest}
    (hs : Idle p u s) (hd : ReadEvent d) (hw : w ≠ [])
    (hp : Unfinished p (u ++ received d.recvs ++ w) request) :
    ∃ t p' u', afterDispatch callbacks depth s d = ⟨t, none⟩ ∧ Idle p' u' t ∧
      t.history.reports = s.history.reports ∧ Unfinished p' (u' ++ w) request := by
  obtain ⟨hreading, timeStamp, q, hcompletes, hcontent⟩ := hp
  have hq := HttpParser.completes_stamped d.timeStamp hcompletes hreading
  obtain ⟨p', u', hpart, hwaits, hrest⟩ := HttpParser.exists_waits hq.2 hw
  have hreading' : p'.Reading := by
    constructor
    · intro hstate
      simp [HttpParser.Waits, hstate] at hwaits
    · intro hstate
      simp [HttpParser.Waits, hstate] at hwaits
  have hsuccess : ¬p'.isSuccess = true := fun h => hreading'.1 (of_decide_eq_true h)
  obtain ⟨t, ht, hafter⟩ := afterDispatch_after callbacks depth
    (q := p') (v := u') hs hd (fun h => absurd h hsuccess) fun b hb hunread => by
      apply HttpParser.parse_of_waiting _ hwaits hb
      rw [hunread]
      exact hpart
  rw [After, if_neg hsuccess] at hafter
  exact ⟨t, p', u', ht, hafter.1, hafter.2, hreading', d.timeStamp, _, ⟨hq.1, hrest⟩, hcontent⟩

end Message

/-- A request that is well formed: fed alone to a fresh parser it is parsed, to its last byte. -/
def FedAlone (bytes : List UInt8) (request : HttpRequest) : Prop :=
  ∃ beyond timeStamp b p c, MutableSizeTcpBuffer.new.append bytes = .ok b ∧
    HttpParser.new.parse beyond timeStamp b = .ok (true, p, c) ∧ p.isSuccess = true ∧
      c.unread = [] ∧ p.request = request

theorem unfinished_of_fedAlone {bytes : List UInt8} {request : HttpRequest}
    (h : FedAlone bytes request) : Unfinished .new bytes request := by
  obtain ⟨beyond, timeStamp, b, p, c, happend, hparse, hsuccess, hunread, rfl⟩ := h
  have hreading : HttpParser.new.Reading := ⟨by decide, by decide⟩
  obtain ⟨b', happend', hb, hb'⟩ :=
    MutableSizeTcpBuffer.append_spec MutableSizeTcpBuffer.valid_new bytes
  rw [happend] at happend'
  cases happend'
  have hcompletes :=
    HttpParser.completes_of_parse hparse (of_decide_eq_true hsuccess) hreading hb
  rw [hunread, hb', MutableSizeTcpBuffer.unread_new, List.nil_append] at hcompletes
  exact ⟨hreading, timeStamp, p, hcompletes, rfl⟩

theorem length_pos_of_fedAlone {bytes : List UInt8} {request : HttpRequest}
    (h : FedAlone bytes request) : 0 < bytes.length := by
  obtain ⟨hreading, timeStamp, q, ⟨hs, hr⟩, -⟩ := unfinished_of_fedAlone h
  apply List.length_pos_of_ne_nil
  intro heq
  subst heq
  have hstuck : ∀ y, ¬HttpParser.Eats timeStamp (.new, []) y := nofun
  cases HttpParser.eq_of_reaches hr hstuck
  exact hreading.1 hs

/-- The requests `rs` are ahead of a parser that has `u` before it and `w` to come; `n` bytes of
them have been received. -/
def Ahead (p : HttpParser) (u : List UInt8) (n : Nat) (w : List UInt8) :
    List (List UInt8 × HttpRequest) → Prop
  | [] => u = [] ∧ w = []
  | (bytes, request) :: rs => ∃ rest, Unfinished p rest request ∧
      u ++ w = rest ++ (rs.map (·.1)).flatten ∧ n + rest.length = bytes.length + u.length

theorem ahead_new {rs : List (List UInt8 × HttpRequest)} {u w : List UInt8}
    (hrs : ∀ r ∈ rs, FedAlone r.1 r.2 ∧ r.2.needClose = false)
    (hstream : u ++ w = (rs.map (·.1)).flatten) : Ahead .new u u.length w rs := by
  cases rs with
  | nil => exact List.append_eq_nil_iff.mp hstream
  | cons r rs =>
    refine ⟨r.1, unfinished_of_fedAlone (hrs r List.mem_cons_self).1, hstream, ?_⟩
    omega

section Run
variable (callbacks : Callbacks) (depth : Nat)

theorem serve_cons {s : HttpState} {t : Served} {d : HttpDispatch} {events : List HttpDispatch}
    {p : HttpParser} {u : List UInt8} (hs : Idle p u s) (hd : ReadEvent d)
    (ht : afterDispatch callbacks depth s d = t) :
    serve callbacks depth (fun _ _ => True) ⟨s, none⟩ (d :: events) =
      serve callbacks depth (fun _ _ => True) t events := by
  have hpolled : Polled s d := by
    refine ⟨hs.detached, fun _ => hs.reading, fun hwrite => ?_⟩
    rw [hd.write] at hwrite
    cases hwrite
  rw [serve, if_pos ⟨rfl, hpolled, trivial⟩, ht]

/-- Each read event hands on the next request if it is complete, and no other. -/
theorem serve_requests {events : List HttpDispatch} {rs : List (List UInt8 × HttpRequest)}
    {s : HttpState} {p : HttpParser} {u : List UInt8} {n : Nat}
    (hrs : ∀ r ∈ rs, FedAlone r.1 r.2 ∧ r.2.needClose = false)
    (hevents : ∀ d ∈ events, ReadEvent d) (hs : Idle p u s)
    (hahead : Ahead p u n (events.map (received ·.recvs)).flatten rs) :
    ∃ t left, serve callbacks depth (fun _ _ => True) ⟨s, none⟩ events = some ⟨t, none⟩ ∧
      left = OnePerArrival.left (rs.map (·.1.length)) n (events.map (received ·.recvs |>.length)) ∧
      t.history.reports.map content = s.history.reports.map content ++
        (rs.take (rs.length - left)).map (content ·.2) ∧
      (left = 0 → t.conn.inputBuffer.unread = []) := by
  induction events generalizing rs s p u n with
  | nil =>
    refine ⟨s, rs.length, rfl, by simp [OnePerArrival.left], by simp, fun hleft => ?_⟩
    rw [List.length_eq_zero_iff.mp hleft] at hahead
    rw [hs.unread]
    exact hahead.1
  | cons d events ih =>
    have hd := hevents d List.mem_cons_self
    have hevents' : ∀ d ∈ events, ReadEvent d :=
      fun d' hd' => hevents d' (List.mem_cons_of_mem _ hd')
    rw [List.map_cons, List.flatten_cons] at hahead
    cases rs with
    | nil => exact absurd (List.append_eq_nil_iff.mp hahead.2).1 hd.received
    | cons r rs =>
      obtain ⟨bytes, request⟩ := r
      obtain ⟨rest, hunfinished, hstream, hn⟩ := hahead
      have hrs' : ∀ r ∈ rs, FedAlone r.1 r.2 ∧ r.2.needClose = false :=
        fun r hr => hrs r (List.mem_cons_of_mem _ hr)
      have hclose := (hrs _ List.mem_cons_self).2
      simp only [List.map_cons, OnePerArrival.left]
      rw [← List.append_assoc] at hstream
      by_cases hle : rest.length ≤ (u ++ received d.recvs).length
      · -- the event completes the request
        have hfront : rest <+: u ++ received d.recvs :=
          List.prefix_of_prefix_length_le ⟨_, hstream.symm⟩ (List.prefix_append _ _) hle
        obtain ⟨more, hmore⟩ := hfront
        rw [← hmore, List.append_assoc, List.append_cancel_left_eq] at hstream
        obtain ⟨t, r, hafter, hidle, hreports, hcontent⟩ :=
          afterDispatch_complete callbacks depth hs hd hunfinished hclose
            hmore.symm
        obtain ⟨t', left, hserve, hleft, hreports', hunread⟩ :=
          ih hrs' hevents' hidle (ahead_new hrs' hstream)
        have hlength := congrArg List.length hmore
        simp only [List.length_append] at hlength hle
        have hcount : n + (received d.recvs).length - bytes.length = more.length := by omega
        have hbound := OnePerArrival.left_le (rs.map (·.1.length)) more.length
          (events.map (received ·.recvs |>.length))
        rw [← hleft, List.length_map] at hbound
        rw [if_pos (by omega), hcount, serve_cons callbacks depth hs hd hafter]
        refine ⟨t', left, hserve, hleft, ?_, hunread⟩
        rw [hreports', hreports, List.length_cons, Nat.succ_sub hbound, List.take_succ_cons,
          List.map_append, List.append_assoc]
        simp [hcontent]
      · -- the rest of the request is still to come
        have hfront : u ++ received d.recvs <+: rest :=
          List.prefix_of_prefix_length_le (List.prefix_append _ _) ⟨_, hstream.symm⟩ (by omega)
        obtain ⟨w, rfl⟩ := hfront
        have hw : w ≠ [] := by
          intro heq
          subst heq
          simp at hle
        obtain ⟨t, p', u', hafter, hidle, hreports, hunfinished'⟩ :=
          afterDispatch_incomplete callbacks depth hs hd hw hunfinished
        rw [List.append_assoc (u ++ received d.recvs), List.append_cancel_left_eq] at hstream
        simp only [List.length_append] at hn hle
        have hahead' : Ahead p' u' (n + (received d.recvs).length)
            (events.map (received ·.recvs)).flatten ((bytes, request) :: rs) := by
          refine ⟨u' ++ w, hunfinished', by rw [hstream, List.append_assoc], ?_⟩
          rw [List.length_append]
          omega
        obtain ⟨t', left, hserve, hleft, hreports', hunread⟩ := ih hrs hevents' hidle hahead'
        rw [if_neg (by omega), serve_cons callbacks depth hs hd hafter]
        refine ⟨t', left, hserve, hleft, ?_, hunread⟩
        rw [hreports', hreports]

end Run

/-- Requests that arrive in pieces are all handed on, in order, with no byte left, if and only if
after each read event at least as many read events follow as there are requests that have not been
received completely. -/
theorem requests_handed_on_iff (callbacks : Callbacks) (depth : Nat) (timeStamp : Int)
    {requests : List (List UInt8 × HttpRequest)} {events : List HttpDispatch}
    (hrequests : ∀ r ∈ requests, FedAlone r.1 r.2 ∧ r.2.needClose = false)
    (hevents : ∀ d ∈ events, ReadEvent d)
    (hstream : (events.map (received ·.recvs)).flatten = (requests.map (·.1)).flatten) :
    (∃ t, serve callbacks depth (fun _ _ => True) (connected timeStamp false) events = some t ∧
      t.halted = none ∧ t.state.history.reports.map content = requests.map (content ·.2) ∧
      t.state.conn.inputBuffer.unread = []) ↔
    ∀ j ≤ events.length, requests.length ≤
      OnePerArrival.completed (requests.map (·.1.length))
        ((events.take j).map (received ·.recvs |>.length)).sum + (events.length - j) := by
  have hidle : Idle .new [] (connected timeStamp false).state :=
    ⟨rfl, rfl, rfl, rfl, rfl, rfl, MutableSizeTcpBuffer.valid_new, rfl⟩
  obtain ⟨t, left, hserve, hleft, hreports, hunread⟩ := serve_requests callbacks depth
    hrequests hevents hidle (ahead_new hrequests hstream)
  have hpos : ∀ l ∈ requests.map (·.1.length), 0 < l := by
    intro l hl
    obtain ⟨r, hr, rfl⟩ := List.mem_map.mp hl
    exact length_pos_of_fedAlone (hrequests r hr).1
  have hfits : OnePerArrival.left (requests.map (·.1.length)) 0
        (events.map (received ·.recvs |>.length)) = 0 ↔
      ∀ j ≤ events.length, requests.length ≤
        OnePerArrival.completed (requests.map (·.1.length))
          ((events.take j).map (received ·.recvs |>.length)).sum + (events.length - j) := by
    rw [OnePerArrival.left_eq_zero_iff, OnePerArrival.fits_zero_iff hpos]
    simp only [List.length_map, List.map_take]
  rw [List.length_nil] at hleft
  rw [← hfits, ← hleft]
  have hserve' : serve callbacks depth (fun _ _ => True) (connected timeStamp false) events =
      some ⟨t, none⟩ := hserve
  have hbound := OnePerArrival.left_le (requests.map (·.1.length)) 0
    (events.map (received ·.recvs |>.length))
  constructor
  · intro h
    obtain ⟨t', ht', -, hall, -⟩ := h
    rw [hserve'] at ht'
    cases ht'
    have hlength := congrArg List.length (hreports.symm.trans hall)
    rw [← hleft, List.length_map] at hbound
    simp only [connected, started, List.map_nil, List.nil_append, List.length_map,
      List.length_take] at hlength
    omega
  · intro heq
    subst heq
    refine ⟨_, hserve', rfl, ?_, hunread rfl⟩
    rw [hreports, Nat.sub_zero, List.take_length]
    rfl

/-- An event that brings `data` in one piece. -/
def readAtOnce (data : List UInt8) (timeStamp : Int) : HttpDispatch :=
  ⟨epollIn, [.read data], ⟨[], [], []⟩, timeStamp, fun _ => 0⟩

theorem readEvent_readAtOnce {data : List UInt8} (h : data ≠ []) (timeStamp : Int) :
    ReadEvent (readAtOnce data timeStamp) := by
  cases data with
  | nil => exact absurd rfl h
  | cons b data =>
    have hread : has epollIn eventTypeRead = true := by decide
    have hwrite : has epollIn eventTypeWrite = false := by decide
    have hclose : has epollIn eventTypeClose = false := by decide
    exact ⟨hread, hwrite, hclose, rfl, rfl, by simp [readAtOnce, received]⟩

theorem fedAlone_get : FedAlone (bytes "GET / HTTP/1.1\r\n\r\n")
    { HttpRequest.new with method := .get, path := bytes "/", version := .http11 } := by
  refine ⟨fun _ => 0, 0, _, _, _, rfl, rfl, rfl, ?_, ?_⟩
  · decide +kernel
  · decide +kernel

/-- A request and a half in the first event, the other half in the second. -/
theorem requests_handed_on_two : ∃ t,
    serve ⟨fun _ _ => [bytes "ok"], fun _ => []⟩ 1 (fun _ _ => True) (connected 0 false)
      [readAtOnce (bytes "GET / HTTP/1.1\r\n\r\nGET /") 1,
        readAtOnce (bytes " HTTP/1.1\r\n\r\n") 2] = some t ∧
      t.halted = none ∧ t.state.history.reports.length = 2 ∧
      t.state.conn.inputBuffer.unread = [] := by
  have hrequests : ∀ r ∈ List.replicate 2 (bytes "GET / HTTP/1.1\r\n\r\n",
        { HttpRequest.new with method := .get, path := bytes "/", version := .http11 }),
      FedAlone r.1 r.2 ∧ r.2.needClose = false := by
    intro r hr
    rw [List.eq_of_mem_replicate hr]
    exact ⟨fedAlone_get, rfl⟩
  have hevents : ∀ d ∈ [readAtOnce (bytes "GET / HTTP/1.1\r\n\r\nGET /") 1,
      readAtOnce (bytes " HTTP/1.1\r\n\r\n") 2], ReadEvent d := by
    intro d h
    obtain _ | ⟨_, _ | ⟨_, ⟨⟩⟩⟩ := h
    · exact readEvent_readAtOnce (by decide) 1
    · exact readEvent_readAtOnce (by decide) 2
  obtain ⟨t, hserve, hhalted, hreports, hunread⟩ := (requests_handed_on_iff
    ⟨fun _ _ => [bytes "ok"], fun _ => []⟩ 1 0 hrequests hevents (by decide)).mpr (by decide)
  have hlength := congrArg List.length hreports
  rw [List.length_map, List.length_map, List.length_replicate] at hlength
  exact ⟨t, hserve, hhalted, hlength, hunread⟩

/-- Of two requests in one event the second is left in the buffer. -/
theorem requests_left_behind : ¬∀ (callbacks : Callbacks) (depth : Nat) (timeStamp : Int)
    (requests : List (List UInt8 × HttpRequest)) (events : List HttpDispatch),
    (∀ r ∈ requests, FedAlone r.1 r.2 ∧ r.2.needClose = false) → (∀ d ∈ events, ReadEvent d) →
    (events.map (received ·.recvs)).flatten = (requests.map (·.1)).flatten →
    ∃ t, serve callbacks depth (fun _ _ => True) (connected timeStamp false) events = some t ∧
      t.halted = none ∧ t.state.history.reports.map content = requests.map (content ·.2) ∧
      t.state.conn.inputBuffer.unread = [] := by
  intro h
  have hrequests : ∀ r ∈ List.replicate 2 (bytes "GET / HTTP/1.1\r\n\r\n",
        { HttpRequest.new with method := .get, path := bytes "/", version := .http11 }),
      FedAlone r.1 r.2 ∧ r.2.needClose = false := by
    intro r hr
    rw [List.eq_of_mem_replicate hr]
    exact ⟨fedAlone_get, rfl⟩
  have hevents : ∀ d ∈ [readAtOnce (bytes "GET / HTTP/1.1\r\n\r\nGET / HTTP/1.1\r\n\r\n") 1],
      ReadEvent d := by
    intro d hd
    rw [List.mem_singleton.mp hd]
    exact readEvent_readAtOnce (by decide) 1
  obtain ⟨t, hserve, -, -, hunread⟩ := h ⟨fun _ _ => [bytes "ok"], fun _ => []⟩ 1 0 _ _ hrequests
    hevents (by decide)
  have hleft : (serve ⟨fun _ _ => [bytes "ok"], fun _ => []⟩ 1 (fun _ _ => True) (connected 0 false)
      [readAtOnce (bytes "GET / HTTP/1.1\r\n\r\nGET / HTTP/1.1\r\n\r\n") 1]).all
        (fun t => t.state.conn.inputBuffer.unread.length = 18) = true := by
    decide +kernel
  rw [hserve] at hleft
  simp [hunread] at hleft

end HttpServer

end XubinhServer

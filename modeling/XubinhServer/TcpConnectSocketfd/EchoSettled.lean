import XubinhServer.TcpConnectSocketfd.EchoSession
import XubinhServer.TcpConnectSocketfd.EdgeTriggered

/-! A session of the echo client with the echo server does not get stuck: when neither of them is
going to be told of an event, and nothing is under way between them, there is nothing left to do. -/
namespace XubinhServer

open Halting EventPoller Transition TcpConnectSocketfd

variable {κ : Type}

namespace EchoServer

variable {I : State κ Observation → Prop} {script : Nat → List Call} {depth : Nat}

/-- What all operations keep, the message callback keeps. -/
theorem messageLoop_keeps (h : Kept I I Anything)
    (hreports : ∀ s reports, I s → I { s with history.reports := reports }) (fuel : Nat) :
    Keeps I Anything (messageLoop (runWriteComplete script depth) fuel) := by
  induction fuel with
  | zero => exact fun s hs => hs
  | succ fuel ih =>
    intro s hs
    simp only [messageLoop, wp_bind, wp_get, wp_liftPure]
    cases s.conn.inputBuffer.getNextNewlinePosition with
    | error e => trivial
    | ok position =>
      cases position with
      | none => exact hreports s _ hs
      | some newlinePosition =>
        simp only [ends_ok, wp_bind]
        refine wp_mono (h.send _ _ h.runWriteComplete s hs) (fun _ t ht => ?_) fun _ _ => id
        exact ih _ (h.input _ _ (hreports t _ ht))

theorem messageCallback_keeps (h : Kept I I Anything)
    (hreports : ∀ s reports, I s → I { s with history.reports := reports }) :
    Keeps I Anything (messageCallback (runWriteComplete script depth)) :=
  fun s hs => messageLoop_keeps h hreports _ s hs

end EchoServer

namespace EchoClient

variable {I : State κ (List UInt8) → Prop} {script : Nat → List Call} {depth : Nat}

theorem messageLoop_keeps (hinput : ∀ s b, I s → I { s with conn.inputBuffer := b })
    (hreports : ∀ s reports, I s → I { s with history.reports := reports }) (fuel : Nat) :
    Keeps I Anything (messageLoop fuel) := by
  induction fuel with
  | zero => exact fun s hs => hs
  | succ fuel ih =>
    intro s hs
    simp only [messageLoop, wp_bind, wp_get, wp_liftPure]
    cases s.conn.inputBuffer.getNextNewlinePosition with
    | error e => trivial
    | ok position =>
      cases position with
      | none => exact hs
      | some newlinePosition => exact ih _ (hinput _ _ (hreports s _ hs))

theorem messageCallback_keeps (hinput : ∀ s b, I s → I { s with conn.inputBuffer := b })
    (hreports : ∀ s reports, I s → I { s with history.reports := reports }) :
    Keeps I Anything messageCallback :=
  fun s hs => messageLoop_keeps hinput hreports _ s hs

theorem readStdin_keeps (h : Kept I I Anything) (reads : List RecvResult) :
    Keeps I Anything (readStdin (runWriteComplete script depth) reads) := by
  induction reads with
  | nil => exact fun s hs => hs
  | cons answer rest ih =>
    intro s hs
    cases answer with
    | read data =>
      simp only [readStdin, wp_ite, wp_bind, wp_throw]
      split
      · exact wp_mono (h.send _ data h.runWriteComplete s hs) (fun _ t ht => ih t ht) fun _ _ => id
      · trivial
    | error errno =>
      cases errno with
      | EAGAIN => exact hs
      | EWOULDBLOCK => trivial
      | EPIPE => trivial
      | ENOTCONN => trivial
      | other code => trivial

end EchoClient

namespace EchoSession

open EchoServer EchoClient

/-- A session and the sockets of its two sides. -/
structure Polled (κ : Type) where
  session : Session κ
  clientSocket : Socket
  serverSocket : Socket

/-- A step of the client, of the server or of the network. `epoll` reports to each of the two, and
the network delivers what the kernel of the other side has taken. -/
inductive Polled.Step (script : Nat → List Call) (depth : Nat) : Polled κ → Polled κ → Prop
  | toServer {p} (data : List UInt8)
      (h : p.session.input ++ (p.serverSocket.incoming ++ data) <+:
        p.session.client.state.history.accepted) :
      Step script depth p { p with
        serverSocket := p.serverSocket.arrive p.session.server data }
  | toClient {p} (data : List UInt8)
      (h : p.session.client.input ++ (p.clientSocket.incoming ++ data) <+:
        p.session.server.history.accepted) :
      Step script depth p { p with
        clientSocket := p.clientSocket.arrive p.session.client.state data }
  | clientEnds {p} (h : Closed p.session.client.state) :
      Step script depth p { p with serverSocket := p.serverSocket.finish p.session.server }
  | serverEnds {p} (h : Closed p.session.server) :
      Step script depth p { p with clientSocket := p.clientSocket.finish p.session.client.state }
  | clientDrains {p} :
      Step script depth p { p with clientSocket := p.clientSocket.drain p.session.client.state }
  | serverDrains {p} :
      Step script depth p { p with serverSocket := p.serverSocket.drain p.session.server }
  | clientHangsUp {p} : Step script depth p { p with clientSocket.pending := true }
  | serverHangsUp {p} : Step script depth p { p with serverSocket.pending := true }
  | stdin {p t} (kernel : Kernel) (reads : List RecvResult)
      (hkernel : p.session.client.state.conn.isWriteEndShutdown = true →
        kernel.sends.head? = some (.error .EPIPE))
      (hanswers : t.kernel.sends ≠ [])
      (h : readStdin (runWriteComplete script depth) reads
        { p.session.client.state with kernel := kernel } = .ok () t) :
      Step script depth p { p with
        session.client :=
          ⟨t, p.session.client.input, p.session.client.typed ++ received reads⟩
        clientSocket := p.clientSocket.after p.session.client.state t kernel.sends }
  | stop {p t} (kernel : Kernel) (hanswers : t.kernel.sends ≠ [])
      (h : shutdownWrite (runWriteComplete script depth)
        { p.session.client.state with kernel := kernel } = .ok () t) :
      Step script depth p { p with
        session.client := ⟨t, p.session.client.input, p.session.client.typed⟩
        clientSocket := p.clientSocket.after p.session.client.state t kernel.sends }
  | client {p t} (kernel : Kernel) (activeEvents : UInt32) (recvs : List RecvResult)
      (hreports : p.clientSocket.Reports p.session.client.state activeEvents recvs)
      (hanswers : t.kernel.sends ≠ [])
      (h : dispatchActiveEvents (runWriteComplete script depth) activeEvents recvs
        EchoClient.messageCallback { p.session.client.state with kernel := kernel } = .ok () t) :
      Step script depth p { p with
        session.client := ⟨t, p.session.client.input ++
          (if has activeEvents eventTypeRead then received recvs else []), p.session.client.typed⟩
        clientSocket := (p.clientSocket.reported activeEvents).after p.session.client.state t
          kernel.sends }
  | server {p t} (kernel : Kernel) (activeEvents : UInt32) (recvs : List RecvResult)
      (hreports : p.serverSocket.Reports p.session.server activeEvents recvs)
      (hanswers : t.kernel.sends ≠ [])
      (h : dispatchActiveEvents (runWriteComplete script depth) activeEvents recvs
        (EchoServer.messageCallback (runWriteComplete script depth))
        { p.session.server with kernel := kernel, history.reports := [] } = .ok () t) :
      Step script depth p { p with
        session.server := t
        session.input := p.session.input ++
          (if has activeEvents eventTypeRead then received recvs else [])
        serverSocket := (p.serverSocket.reported activeEvents).after p.session.server t
          kernel.sends }
  | abort {p t} (kernel : Kernel) (hanswers : t.kernel.sends ≠ [])
      (h : abortFromEventLoop { p.session.server with kernel := kernel, history.reports := [] } =
        .ok () t) :
      Step script depth p { p with
        session.server := t
        serverSocket := p.serverSocket.after p.session.server t kernel.sends }

/-- What the sockets know, and that they have only what the other side has sent. -/
structure Sound (p : Polled κ) : Prop where
  session : Invariant p.session
  client : p.clientSocket.Watched p.session.client.state
  server : p.serverSocket.Watched p.session.server
  forth : p.session.input ++ p.serverSocket.incoming <+: p.session.client.state.history.accepted
  back : p.session.client.input ++ p.clientSocket.incoming <+: p.session.server.history.accepted

variable {p q : Polled κ} {script : Nat → List Call} {depth : Nat}

/-- What the kernel has taken before, it has taken behind. -/
theorem taken_of_keeps {ρ : Type} {s t : State κ ρ} {data : List UInt8} {x : Comp κ ρ Unit}
    (h : data <+: s.history.accepted)
    (hkeeps : Keeps (fun s => data <+: s.history.accepted) Anything x) (hrun : x s = .ok () t) :
    data <+: t.history.accepted :=
  wp_of_ok (Q := fun _ t => data <+: t.history.accepted) (hkeeps s h) hrun

theorem dispatch_taken {ρ : Type} {data : List UInt8} {activeEvents : UInt32}
    {recvs : List RecvResult} {messageCallback : Comp κ ρ Unit}
    (hm : Keeps (fun s => data <+: s.history.accepted) Anything messageCallback) :
    Keeps (fun s => data <+: s.history.accepted) Anything
      (dispatchActiveEvents (runWriteComplete script depth) activeEvents recvs messageCallback) :=
  fun _ hs => kept_taken.dispatch kept_taken.runWriteComplete kept_taken.runWriteComplete hm hs
    fun _ => hs

theorem Sound.step (h : Sound p) (hstep : Polled.Step script depth p q) : Sound q := by
  obtain ⟨hsession, hclient, hserver, hforth, hback⟩ := h
  have hinput := (List.prefix_append _ _).trans hback
  cases hstep with
  | toServer data hdata => exact ⟨hsession, hclient, hserver.arrive data, hdata, hback⟩
  | toClient data hdata => exact ⟨hsession, hclient.arrive data, hserver, hforth, hdata⟩
  | clientEnds => exact ⟨hsession, hclient, hserver.finish, hforth, hback⟩
  | serverEnds => exact ⟨hsession, hclient.finish, hserver, hforth, hback⟩
  | clientDrains => exact ⟨hsession, hclient.drain, hserver, hforth, hback⟩
  | serverDrains => exact ⟨hsession, hclient, hserver.drain, hforth, hback⟩
  | clientHangsUp =>
    exact ⟨hsession, ⟨fun _ => .inl rfl, fun _ _ => .inl rfl⟩, hserver, hforth, hback⟩
  | serverHangsUp =>
    exact ⟨hsession, hclient, ⟨fun _ => .inl rfl, fun _ _ => .inl rfl⟩, hforth, hback⟩
  | @stdin t kernel reads hkernel hanswers hrun =>
    have hturn : EchoClient.Turn script depth p.session.client
        ⟨t, p.session.client.input, p.session.client.typed ++ received reads⟩ :=
      .stdin kernel reads hkernel hrun
    have htaken := taken_of_keeps (s := { p.session.client.state with kernel := kernel }) hforth
      (readStdin_keeps kept_taken reads) hrun
    refine ⟨hsession.step (.client hturn hinput), ?_, hserver, htaken, hback⟩
    exact hclient.of_keeps (u := { p.session.client.state with kernel := kernel }) rfl hrun
      (readStdin_keeps kept_waits reads) (readStdin_keeps kept_shut reads)
      (readStdin_keeps kept_notReading reads)
  | @stop t kernel hanswers hrun =>
    have hturn : EchoClient.Turn script depth p.session.client
        ⟨t, p.session.client.input, p.session.client.typed⟩ := .stop kernel hrun
    have htaken := taken_of_keeps (s := { p.session.client.state with kernel := kernel }) hforth
      (kept_taken.runCall .shutdownWrite) hrun
    refine ⟨hsession.step (.client hturn hinput), ?_, hserver, htaken, hback⟩
    exact hclient.of_keeps (u := { p.session.client.state with kernel := kernel }) rfl hrun
      (kept_waits.runCall .shutdownWrite) (kept_shut.runCall .shutdownWrite)
      (kept_notReading.runCall .shutdownWrite)
  | @client t kernel activeEvents recvs hreports hanswers hrun =>
    have hturn : EchoClient.Turn script depth p.session.client ⟨t, _, p.session.client.typed⟩ :=
      .dispatch kernel activeEvents recvs hreports.isReading hrun
    have hreceived := hreports.received_prefix hback
    have htaken := taken_of_keeps (s := { p.session.client.state with kernel := kernel }) hforth
      (dispatch_taken (EchoClient.messageCallback_keeps (fun _ _ => id) fun _ _ => id)) hrun
    refine ⟨hsession.step (.client hturn ((List.prefix_append _ _).trans hreceived)), ?_, hserver,
      htaken, hreceived⟩
    exact Socket.watched_of_dispatch (u := { p.session.client.state with kernel := kernel })
      hreports rfl hrun
      (EchoClient.messageCallback_keeps (fun _ _ hs => hs.of_same rfl rfl)
        fun _ _ hs => hs.of_same rfl rfl)
      (EchoClient.messageCallback_keeps (fun _ _ => id) fun _ _ => id)
  | @server t kernel activeEvents recvs hreports hanswers hrun =>
    have hturn : EchoServer.Turn script depth (p.session.server, p.session.input) (t, _) :=
      .dispatch kernel activeEvents recvs hreports.isReading hrun
    have hreceived := hreports.received_prefix hforth
    have htaken := taken_of_keeps
      (s := { p.session.server with kernel := kernel, history.reports := [] }) hback
      (dispatch_taken (EchoServer.messageCallback_keeps kept_taken fun _ _ => id)) hrun
    refine ⟨hsession.step (.server hturn ((List.prefix_append _ _).trans hreceived)), hclient, ?_,
      hreceived, htaken⟩
    exact Socket.watched_of_dispatch
      (u := { p.session.server with kernel := kernel, history.reports := [] }) hreports rfl hrun
      (EchoServer.messageCallback_keeps kept_waits fun _ _ hs => hs.of_same rfl rfl)
      (EchoServer.messageCallback_keeps kept_notReading fun _ _ => id)
  | @abort t kernel hanswers hrun =>
    have hturn : EchoServer.Turn script depth (p.session.server, p.session.input)
        (t, p.session.input) := .abort kernel hrun
    have habort : wp abortFromEventLoop (fun _ t => t.conn.pollable.isDetached = true ∧
        p.session.client.input ++ p.clientSocket.incoming <+: t.history.accepted) Anything
        { p.session.server with kernel := kernel, history.reports := [] } :=
      abortFromEventLoop_rule
        (fun _ _ => ⟨PollableFileDescriptor.detachFromPoller_isDetached _, hback⟩)
        (fun _ _ _ => trivial) fun _ _ _ _ _ _ => trivial
    obtain ⟨hd, htaken⟩ := wp_of_ok habort hrun
    exact ⟨hsession.step (.server hturn ((List.prefix_append _ _).trans hforth)), hclient,
      Socket.watched_of_detached hd, hforth, htaken⟩

/-- No event is pending, the kernels have room, and the network has delivered everything. -/
structure Settled (p : Polled κ) : Prop where
  clientQuiet : p.clientSocket.pending = false
  clientRoom : p.clientSocket.full = false
  serverQuiet : p.serverSocket.pending = false
  serverRoom : p.serverSocket.full = false
  forth : p.session.input ++ p.serverSocket.incoming = p.session.client.state.history.accepted
  back : p.session.client.input ++ p.clientSocket.incoming = p.session.server.history.accepted

/-- Whatever has happened in a session that is still open: once neither side is going to be told of
an event, the kernels have room and the network has delivered everything, all the lines that have
been typed are on the terminal. So until then one of them can go on. -/
theorem printed_of_settled {timeStamp timeStamp' : Int} {context context' : Option κ}
    (hr : Reaches (Polled.Step script depth) ⟨initial timeStamp timeStamp' context context',
      .registered [] false, .registered [] false⟩ p)
    (hclient : Opened p.session.client.state) (hserver : Opened p.session.server)
    (hsettled : Settled p) :
    p.session.client.state.history.reports = lines p.session.client.typed := by
  have hsound : Sound p := by
    refine hr.invariant (I := Sound) ?_ fun _ _ h hstep => h.step hstep
    exact ⟨invariant_initial, ⟨fun _ => .inr rfl, fun _ hwriting => by cases hwriting⟩,
      ⟨fun _ => .inr rfl, fun _ hwriting => by cases hwriting⟩, List.prefix_refl _,
      List.prefix_refl _⟩
  obtain ⟨hread, hsent⟩ := hsound.client.idle hclient hsound.session.prints.sends
    hsettled.clientQuiet hsettled.clientRoom
  obtain ⟨hread', hsent'⟩ := hsound.server.idle hserver
    hsound.session.echoes.over_or_sending hsettled.serverQuiet hsettled.serverRoom
  have hforth := hsettled.forth
  have hback := hsettled.back
  rw [hread', List.append_nil] at hforth
  rw [hread, List.append_nil] at hback
  exact hsound.session.printed hsent hsent' hforth hback

/-- A line and a half is typed, and the session is settled once the line is back. -/
theorem printed_of_settled_one_line : ∃ p : Polled Unit, Settled p ∧
    p.session.client.typed = bytes "a\nb" ∧
    p.session.client.state.history.reports = lines (bytes "a\nb") := by
  let forth : Kernel := ⟨[.accepted 3, .error .EAGAIN], [], []⟩
  let back : Kernel := ⟨[.accepted 2, .error .EAGAIN], [], []⟩
  let start : Session Unit := initial 0 0 none none
  let callback {ρ : Type} : Comp Unit ρ Unit := runWriteComplete (fun _ => []) 0
  have hrun : ∃ c v d, readStdin callback [.read (bytes "a\nb")]
        { start.client.state with kernel := forth } = .ok () c ∧
      dispatchActiveEvents callback epollIn [.read (bytes "a\nb"), .error .EAGAIN]
        (EchoServer.messageCallback callback)
        { start.server with kernel := back, history.reports := [] } = .ok () v ∧
      dispatchActiveEvents callback epollIn [.read (bytes "a\n"), .error .EAGAIN]
        EchoClient.messageCallback { c with kernel := back } = .ok () d ∧
      c.history.accepted = bytes "a\nb" ∧ Opened c ∧ c.conn.pollable.isWriting = false ∧
      c.kernel.sends = [.error .EAGAIN] ∧
      v.history.accepted = bytes "a\n" ∧ Opened v ∧ v.conn.pollable.isWriting = false ∧
      v.kernel.sends = [.error .EAGAIN] ∧
      d.history.accepted = bytes "a\nb" ∧ Opened d ∧ d.conn.pollable.isWriting = false ∧
      d.kernel.sends = back.sends :=
    ⟨_, _, _, rfl, rfl, rfl, rfl, ⟨rfl, rfl⟩, rfl, rfl, rfl, ⟨rfl, rfl⟩, rfl, rfl, rfl, ⟨rfl, rfl⟩,
      rfl, rfl⟩
  obtain ⟨c, v, d, hstdin, hserver, hclient, hforth, hopen, hidle, hsends, hback, hopen', hidle',
    hsends', htaken, hopened, hquiet, hanswers⟩ := hrun
  let quiet : Socket := .registered [] false
  have hafter : ∀ {ρ : Type} (s t : State Unit ρ) (n : Nat), t.conn.pollable.isWriting = false →
      t.kernel.sends = [.error .EAGAIN] →
      quiet.after s t [.accepted n, .error .EAGAIN] = quiet := by
    intro ρ s t n hidle hsends
    simp [quiet, Socket.after, Socket.registered, hidle, hsends, isFull]
  have hreports : ∀ {ρ : Type} {s : State Unit ρ} (data : List UInt8), data ≠ [] → Opened s →
      s.conn.pollable.isWriting = false →
      (quiet.arrive s data).Reports s epollIn [.read data, .error .EAGAIN] := by
    intro ρ s data hdata hopen hidle
    have hsome : data.isEmpty = false := by simpa using hdata
    refine ⟨?_, ?_, ?_, fun _ => ⟨?_, ?_⟩⟩
    · simp [quiet, Socket.arrive, hopen.reading]
    · rw [hopen.reading]
      simp [quiet, Socket.arrive, Socket.registered, Socket.readable, hsome]
      rfl
    · rw [hidle]
      rfl
    · simp [quiet, Socket.arrive, Socket.registered, received]
    · have hlength := List.length_pos_iff.mpr hdata
      simpa [quiet, Socket.arrive, Socket.registered, endsStream] using hlength
  have hread : ∀ {ρ : Type} (s : State Unit ρ) (data : List UInt8),
      (quiet.arrive s data).reported epollIn = quiet := fun _ _ => rfl
  let typed : Client Unit := ⟨c, [], bytes "a\nb"⟩
  let settled : Polled Unit := ⟨⟨⟨d, bytes "a\n", bytes "a\nb"⟩, v, bytes "a\nb"⟩, quiet, quiet⟩
  have hfirst : Polled.Step (fun _ => []) 0 ⟨start, quiet, quiet⟩
      ⟨⟨typed, start.server, []⟩, quiet, quiet⟩ := by
    have hstep := Polled.Step.stdin (p := ⟨start, quiet, quiet⟩) forth [.read (bytes "a\nb")]
      (fun hshut => by cases hshut) (hsends ▸ List.cons_ne_nil _ _) hstdin
    rwa [hafter _ _ 3 hidle hsends] at hstep
  have hsecond : Polled.Step (fun _ => []) 0 ⟨⟨typed, start.server, []⟩, quiet, quiet⟩
      ⟨⟨typed, start.server, []⟩, quiet, quiet.arrive start.server (bytes "a\nb")⟩ :=
    .toServer _ (hforth ▸ List.prefix_refl _)
  have hthird : Polled.Step (fun _ => []) 0
      ⟨⟨typed, start.server, []⟩, quiet, quiet.arrive start.server (bytes "a\nb")⟩
      ⟨⟨typed, v, bytes "a\nb"⟩, quiet, quiet⟩ := by
    have hstep := Polled.Step.server
      (p := ⟨⟨typed, start.server, []⟩, quiet, quiet.arrive start.server (bytes "a\nb")⟩)
      back epollIn _ (hreports _ (by decide) ⟨rfl, rfl⟩ rfl) (hsends' ▸ List.cons_ne_nil _ _)
      hserver
    rwa [hread, hafter _ _ 2 hidle' hsends'] at hstep
  have hfourth : Polled.Step (fun _ => []) 0 ⟨⟨typed, v, bytes "a\nb"⟩, quiet, quiet⟩
      ⟨⟨typed, v, bytes "a\nb"⟩, quiet.arrive c (bytes "a\n"), quiet⟩ :=
    .toClient _ (hback ▸ List.prefix_refl _)
  have hfifth : Polled.Step (fun _ => []) 0
      ⟨⟨typed, v, bytes "a\nb"⟩, quiet.arrive c (bytes "a\n"), quiet⟩ settled := by
    have hstep := Polled.Step.client
      (p := ⟨⟨typed, v, bytes "a\nb"⟩, quiet.arrive c (bytes "a\n"), quiet⟩)
      back epollIn _ (hreports _ (by decide) hopen hidle) (hanswers ▸ List.cons_ne_nil _ _) hclient
    have hsame : quiet.after c d back.sends = quiet := by
      simp [quiet, Socket.after, Socket.registered, hquiet, hanswers]
    rwa [hread, hsame] at hstep
  have hr : Reaches (Polled.Step (fun _ => []) 0) ⟨start, quiet, quiet⟩ settled :=
    .head hfirst (.head hsecond (.head hthird (.head hfourth (.single hfifth))))
  have hsettled : Settled settled := ⟨rfl, rfl, rfl, rfl, htaken.symm, hback.symm⟩
  exact ⟨settled, hsettled, rfl, printed_of_settled hr hopened hopen' hsettled⟩

end EchoSession

end XubinhServer

import Mathlib.Data.List.Infix
import XubinhServer.TcpConnectSocketfd.EchoClient

/-! A session of the echo client with the echo server, from the keyboard to the terminal. -/
namespace XubinhServer

open EventPoller Transition TcpConnectSocketfd

/-- A part of a stream has a part of its lines. -/
theorem lines_mono {u v : List UInt8} (h : u <+: v) : lines u <+: lines v := by
  obtain ⟨rest, rfl⟩ := h
  rw [(lines_append u rest).1]
  exact List.prefix_append _ _

theorem lines_flatten_lines (u : List UInt8) : lines (lines u).flatten = lines u := by
  induction u with
  | nil => rfl
  | cons b u ih =>
    rw [lines]
    split
    · rename_i hb
      rw [List.flatten_cons, List.cons_append, List.nil_append, lines, if_pos hb, ih]
    · rename_i hb
      cases hu : lines u with
      | nil => rfl
      | cons line more =>
        rw [hu] at ih
        change lines (b :: (line ++ more.flatten)) = _
        rw [lines, if_neg hb, ← List.flatten_cons, ih]

namespace EchoSession

open EchoServer EchoClient

/-- The client, the server, and what the server has received. -/
structure Session (κ : Type) where
  client : Client κ
  server : State κ Observation
  input : List UInt8

variable {κ : Type} {s t : Session κ} {script : Nat → List Call} {depth : Nat}

/-- One of the two takes a turn. It receives what the kernel of the other has taken, in order. -/
inductive Step (script : Nat → List Call) (depth : Nat) : Session κ → Session κ → Prop
  | client {s : Session κ} {client : Client κ}
      (hturn : EchoClient.Turn script depth s.client client)
      (hnetwork : client.input <+: s.server.history.accepted) :
      Step script depth s { s with client := client }
  | server {s : Session κ} {server : State κ Observation} {input : List UInt8}
      (hturn : EchoServer.Turn script depth (s.server, s.input) (server, input))
      (hnetwork : input <+: s.client.state.history.accepted) :
      Step script depth s { s with server := server, input := input }

def initial (timeStamp timeStamp' : Int) (context context' : Option κ) : Session κ :=
  ⟨⟨connected timeStamp context, [], []⟩, started timeStamp' context' none, []⟩

/-- What each of the two does, and that each has received only what the other has sent. -/
structure Invariant (s : Session κ) : Prop where
  prints : Prints s.client.input s.client.typed s.client.state
  echoes : Echoes s.input s.server
  back : s.client.input <+: (lines s.input).flatten
  forth : s.input <+: s.client.typed

theorem typed_grows {a b : Client κ} (hturn : EchoClient.Turn script depth a b) :
    a.typed <+: b.typed := by
  cases hturn with
  | dispatch => exact List.prefix_refl _
  | stdin => exact List.prefix_append _ _
  | stop => exact List.prefix_refl _

theorem input_grows {a b : State κ Observation × List UInt8}
    (hturn : EchoServer.Turn script depth a b) : a.2 <+: b.2 := by
  cases hturn with
  | dispatch => exact List.prefix_append _ _
  | abort => exact List.prefix_refl _

theorem Invariant.step (h : Invariant s) (hstep : Step script depth s t) : Invariant t := by
  cases hstep with
  | @client client hturn hnetwork =>
    have htaken : s.server.history.accepted <+: (lines s.input).flatten :=
      h.echoes.over_or_sending.elim Over.taken Sending.taken
    have htyped := h.forth.trans (typed_grows hturn)
    exact ⟨hturn.prints h.prints, h.echoes, hnetwork.trans htaken, htyped⟩
  | @server server input hturn hnetwork =>
    have htaken : s.client.state.history.accepted <+: s.client.typed :=
      h.prints.sends.elim Over.taken Sending.taken
    have hlines := lines_mono (input_grows hturn)
    exact ⟨h.prints, hturn.echoes h.echoes, h.back.trans hlines.flatten, hnetwork.trans htaken⟩

/-- On an open session that is idle, everything that has been delivered is on the terminal. -/
theorem Invariant.printed (h : Invariant s)
    (hclient : s.client.state.history.accepted = s.client.typed)
    (hserver : s.server.history.accepted = (lines s.input).flatten)
    (hdelivered : s.input = s.client.state.history.accepted)
    (hdelivered' : s.client.input = s.server.history.accepted) :
    s.client.state.history.reports = lines s.client.typed := by
  rw [h.prints.printed, hdelivered', hserver, lines_flatten_lines, hdelivered, hclient]

theorem invariant_initial {timeStamp timeStamp' : Int} {context context' : Option κ} :
    Invariant (initial timeStamp timeStamp' context context') :=
  ⟨connected_prints, started_echoes, List.prefix_refl _, List.prefix_refl _⟩

/-- Whatever the two kernels answer, in whatever pieces the network delivers, and however the
session ends: what is on the terminal are the first of the lines that have been typed. Once both
sides are idle and everything has been delivered on a session that is still open, it is all of
them. -/
theorem printed_as_typed {timeStamp timeStamp' : Int} {context context' : Option κ}
    (hr : Reaches (Step script depth) (initial timeStamp timeStamp' context context') s) :
    s.client.state.history.reports <+: lines s.client.typed ∧
    (s.client.state.conn.pollable.isDetached = false →
      s.client.state.conn.isWriteEndShutdown = false →
      s.client.state.conn.pollable.isWriting = false →
      s.server.conn.pollable.isDetached = false → s.server.conn.isWriteEndShutdown = false →
      s.server.conn.pollable.isWriting = false →
      s.input = s.client.state.history.accepted →
      s.client.input = s.server.history.accepted →
      s.client.state.history.reports = lines s.client.typed) := by
  have h : Invariant s := hr.invariant invariant_initial fun _ _ h hstep => h.step hstep
  constructor
  · have hlines := lines_mono h.back
    rw [lines_flatten_lines] at hlines
    rw [h.prints.printed]
    exact hlines.trans (lines_mono h.forth)
  · intro hd ho hidle hd' ho' hidle' hdelivered hdelivered'
    have hsent := accepted_of_idle h.prints.sends hd ho hidle
    have hsent' := accepted_of_idle h.echoes.over_or_sending hd' ho' hidle'
    exact h.printed hsent hsent' hdelivered hdelivered'

/-- A line and a half is typed, and the line comes back. -/
theorem printed_as_typed_one_line : ∃ s : Session Unit, s.client.typed = bytes "a\nb" ∧
    s.client.state.history.reports = lines (bytes "a\nb") := by
  let kernel : Kernel := ⟨[], [], []⟩
  let start : Session Unit := initial 0 0 none none
  let callback {ρ : Type} : Comp Unit ρ Unit := runWriteComplete (fun _ => []) 0
  have hrun : ∃ c v d, readStdin callback [.read (bytes "a\nb")]
        { start.client.state with kernel := kernel } = .ok () c ∧
      dispatchActiveEvents callback epollIn [.read (bytes "a\nb"), .error .EAGAIN]
        (EchoServer.messageCallback callback)
        { start.server with kernel := kernel, history.reports := [] } = .ok () v ∧
      dispatchActiveEvents callback epollIn [.read (bytes "a\n"), .error .EAGAIN]
        EchoClient.messageCallback { c with kernel := kernel } = .ok () d ∧
      c.history.accepted = bytes "a\nb" ∧ c.conn.pollable.isReading = true ∧
      v.history.accepted = bytes "a\n" ∧ v.conn.pollable.isDetached = false ∧
      v.conn.isWriteEndShutdown = false ∧ v.conn.pollable.isWriting = false ∧
      d.history.accepted = bytes "a\nb" ∧ d.conn.pollable.isDetached = false ∧
      d.conn.isWriteEndShutdown = false ∧ d.conn.pollable.isWriting = false :=
    ⟨_, _, _, rfl, rfl, rfl, rfl, rfl, rfl, rfl, rfl, rfl, rfl, rfl, rfl, rfl⟩
  obtain ⟨c, v, d, hstdin, hserver, hclient, hforth, hreading, hback, hd', ho', hidle', htaken, hd,
    ho, hidle⟩ := hrun
  have hfirst : Step (fun _ => []) 0 start ⟨⟨c, [], bytes "a\nb"⟩, start.server, []⟩ :=
    .client (.stdin kernel [.read (bytes "a\nb")] (fun hshut => by cases hshut) hstdin)
      (List.nil_prefix)
  have hsecond : Step (fun _ => []) 0 ⟨⟨c, [], bytes "a\nb"⟩, start.server, []⟩
      ⟨⟨c, [], bytes "a\nb"⟩, v, bytes "a\nb"⟩ :=
    .server (.dispatch kernel epollIn _ (fun _ => rfl) hserver) (hforth ▸ List.prefix_refl _)
  have hthird : Step (fun _ => []) 0 ⟨⟨c, [], bytes "a\nb"⟩, v, bytes "a\nb"⟩
      ⟨⟨d, bytes "a\n", bytes "a\nb"⟩, v, bytes "a\nb"⟩ :=
    .client (.dispatch kernel epollIn _ (fun _ => hreading) hclient) (hback ▸ List.prefix_refl _)
  have hr : Reaches (Step (fun _ => []) 0) start
      ⟨⟨d, bytes "a\n", bytes "a\nb"⟩, v, bytes "a\nb"⟩ :=
    .head hfirst (.head hsecond (.single hthird))
  exact ⟨_, rfl, (printed_as_typed hr).2 hd ho hidle hd' ho' hidle' htaken.symm hback.symm⟩

end EchoSession

end XubinhServer

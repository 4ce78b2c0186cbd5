import Mathlib.Data.List.Nodup
import Mathlib.Data.List.Perm.Subperm
import XubinhServer.TcpServer.CloseOnce
import XubinhServer.TcpServer.Threads

/-! The main loop and a worker never wait for each other as long as the worker has no more
connections than a functor queue has room. With one connection more they do. -/
namespace XubinhServer.TcpServer

open EventPoller Halting TcpConnectSocketfd Transition

open Function (update)

variable {κ ρ : Type}

/-- The runs in which no connection notifies the server twice, and in which a worker has at most
`limit` connections when the main loop finds its queue full. -/
def once (setup : Setup) (limit : Nat) : Allowed κ ρ where
  dispatch := Benign
  abort c := c.conn.pollable.isDetached = false
  post s i := (s.workers i).functors.length < setup.queueCapacity ∨
    s.connections setup i ≤ limit

/-- Dispatches and aborts put a connection back. -/
theorem dispatch_eq (writeComplete : Comp κ ρ Unit) (s : TcpServer κ ρ) (id : Nat)
    (before : State κ ρ) (d : Dispatch) :
    ∃ after halted, s.dispatch writeComplete id before d =
      s.afterDispatch id before after halted := by
  simp only [TcpServer.dispatch]
  split
  · exact ⟨_, _, rfl⟩
  · exact ⟨_, _, rfl⟩

theorem abort_eq (s : TcpServer κ ρ) (id : Nat) (before : State κ ρ)
    (resets : List ResetResult) :
    ∃ after halted, s.abort id before resets = s.afterDispatch id before after halted := by
  simp only [TcpServer.abort]
  split
  · exact ⟨_, _, rfl⟩
  · exact ⟨_, _, rfl⟩

theorem closeFunctors_runCloseFunctor (s : TcpServer κ ρ) (id : Nat) :
    (s.runCloseFunctor id).closeFunctors = s.closeFunctors.erase id := by
  simp only [runCloseFunctor]
  split <;> rfl

theorem Accounted.setTimeStamp {s : TcpServer κ ρ} (h : Accounted s) {id : Nat}
    {before : State κ ρ} (hid : s.sockets id = some before) (timeStamp : Int) :
    Accounted (s.setTimeStamp id before timeStamp) := by
  have hnone : ∀ i, (s.setTimeStamp id before timeStamp).sockets i = none ↔
      s.sockets i = none := by
    intro i
    simp only [TcpServer.setTimeStamp]
    split
    · rename_i heq
      simp [heq, hid]
    · exact Iff.rfl
  have hsome : ∀ i c, (s.setTimeStamp id before timeStamp).sockets i = some c →
      ∃ b, s.sockets i = some b ∧ c.history = b.history ∧ (Notified b → Notified c) := by
    intro i c hc
    simp only [TcpServer.setTimeStamp] at hc
    split at hc
    · rename_i heq
      cases hc
      exact ⟨before, heq ▸ hid, rfl, fun hn => ⟨hn.runs, hn.callback, hn.aborted, hn.reset⟩⟩
    · exact ⟨c, hc, rfl, fun hn => hn⟩
  constructor
  · exact fun i hi => (hnone i).mpr (h.fresh i hi)
  · exact h.nodup
  · exact fun i hi => h.unknown i ((hnone i).mp hi)
  · intro i c hc
    obtain ⟨b, hb, hhistory, _⟩ := hsome i c hc
    rw [hhistory]
    exact h.count i b hb
  · intro i c hc
    obtain ⟨b, hb, hhistory, _⟩ := hsome i c hc
    rw [hhistory]
    exact h.once i b hb
  · intro hrun i c hc
    obtain ⟨b, hb, _, hnotified⟩ := hsome i c hc
    exact hnotified (h.notified hrun i b hb)
  · exact h.halted

/-- A check-and-abort functor that finds its connection attached notifies the server once. -/
theorem Accounted.abort {s : TcpServer κ ρ} (h : Accounted s) {id : Nat} {before : State κ ρ}
    (hrun : s.halted = none) (hid : s.sockets id = some before)
    (hd : before.conn.pollable.isDetached = false) (resets : List ResetResult) :
    Accounted (s.abort id before resets) := by
  have hn := h.notified hrun id before hid
  have hcalm : Calm { before with kernel := ⟨[], [], resets⟩ } := by
    refine ⟨⟨hn.runs, hn.callback, hn.aborted, hn.reset⟩, fun _ => ?_⟩
    exact ⟨Nat.zero_le 1, fun _ => rfl⟩
  have habort := wp_abort_calm (Q := fun _ => Calm) hcalm hd fun _ ht _ => ht
  simp only [TcpServer.abort]
  split
  · rename_i after hafter
    have ht := (wp_of_ok habort hafter).1
    exact h.afterDispatch hrun hid hd ht.le_one (fun _ => ht) (by simp)
  · rename_i e after hafter
    obtain ⟨he, honce⟩ := wp_of_error habort hafter
    exact h.afterDispatch hrun hid hd honce (by simp) (by simpa using he)

/-- Each functor that waits stands for a connection that has notified the server. -/
theorem Accounted.count_le_one {s : TcpServer κ ρ} (h : Accounted s) (id : Nat) :
    s.closeFunctors.count id ≤ 1 := by
  cases hc : s.sockets id with
  | none => simp [List.count_eq_zero_of_not_mem (h.unknown id hc).1]
  | some c =>
    have hcount := h.count id c hc
    have honce := h.once id c hc
    omega

namespace Threads

/-- The close functors of queue `i` that the main loop has popped. -/
def popped (s : Threads κ ρ) (i : Nat) : List Nat :=
  match s.main with
  | .closing j batch => if j = i then batch else []
  | _ => []

/-- Every close functor that has not run is popped, or queued, or about to be pushed, each on
the way from its worker. -/
def Posted (setup : Setup) (s : Threads κ ρ) : Prop :=
  ∀ i id, (s.popped i).count id + (s.closeFunctors i).count id + (s.workers i).closing.count id =
    if setup.loopIndex id = i then s.server.closeFunctors.count id else 0

/-- The main loop that waits for room in a queue waits for a worker with few connections. -/
def WaitsForFew (setup : Setup) (limit : Nat) (s : Threads κ ρ) : Prop :=
  ∀ f rest, s.main = .posting f rest →
    (s.workers (setup.loopIndex f.id)).functors.length < setup.queueCapacity ∨
      s.connections setup (setup.loopIndex f.id) ≤ limit

/-- A check-and-abort functor is with the worker of its connection. -/
def Routed (setup : Setup) (s : Threads κ ρ) : Prop :=
  ∀ i f, f ∈ (s.workers i).functors ∨ f ∈ (s.workers i).batch → setup.loopIndex f.id = i

structure Sound (setup : Setup) (limit : Nat) (s : Threads κ ρ) : Prop where
  accounted : Accounted s.server
  posted : Posted setup s
  routed : Routed setup s
  waits : WaitsForFew setup limit s

section Move

variable {setup : Setup} {limit : Nat} {s t : Threads κ ρ}

/-- The callback of a worker posts what it adds to the server's close functors. -/
theorem Posted.afterCallback (h : Posted setup s) {i k id : Nat} {batch : List CheckAndAbort}
    {server : TcpServer κ ρ} (hclosing : (s.workers i).closing = [])
    (hid : setup.loopIndex id = i)
    (hserver : server.closeFunctors = s.server.closeFunctors ++ List.replicate k id) :
    Posted setup (s.afterCallback i batch server) := by
  intro j id'
  have hold := h j id'
  have hnew : notifications s.server server = List.replicate k id := by
    simp [notifications, hserver]
  have hother : setup.loopIndex id' ≠ i → (List.replicate k id).count id' = 0 := by
    intro hne
    rw [List.count_eq_zero]
    intro hmem
    rw [List.eq_of_mem_replicate hmem] at hne
    exact hne hid
  have hpopped : (s.afterCallback i batch server).popped j = s.popped j := rfl
  rw [hpopped]
  simp only [Threads.afterCallback, hnew, hserver, List.count_append]
  by_cases hji : j = i
  · subst hji
    rw [hclosing, List.count_nil] at hold
    rw [Function.update_self]
    by_cases hj : setup.loopIndex id' = j
    · rw [if_pos hj] at hold ⊢
      simp only
      omega
    · rw [if_neg hj] at hold ⊢
      have := hother hj
      simp only
      omega
  · rw [Function.update_of_ne hji]
    by_cases hj : setup.loopIndex id' = j
    · rw [if_pos hj] at hold ⊢
      have := hother (by rw [hj]; exact hji)
      omega
    · rw [if_neg hj] at hold ⊢
      exact hold

/-- A step that moves no close functor. -/
theorem Posted.of_eq (h : Posted setup s) (hpopped : ∀ i, t.popped i = s.popped i)
    (hqueues : t.closeFunctors = s.closeFunctors)
    (hclosing : ∀ i, (t.workers i).closing = (s.workers i).closing)
    (hserver : t.server.closeFunctors = s.server.closeFunctors) : Posted setup t := by
  intro i id
  rw [hpopped, hqueues, hclosing, hserver]
  exact h i id

theorem closing_update {j : Nat} {worker : Worker}
    (hworker : worker.closing = (s.workers j).closing) (i : Nat) :
    (Function.update s.workers j worker i).closing = (s.workers i).closing := by
  by_cases hi : i = j
  · subst hi
    rw [Function.update_self, hworker]
  · rw [Function.update_of_ne hi]

theorem Posted.popCloseFunctors {j : Nat} (h : Posted setup s) (hm : s.main = .invoking j) :
    Posted setup { s with
      main := .closing j (s.closeFunctors j)
      closeFunctors := Function.update s.closeFunctors j [] } := by
  intro i id
  have hold := h i id
  by_cases hij : i = j
  · subst hij
    simpa [popped, hm] using hold
  · simpa [popped, hm, hij, Ne.symm hij] using hold

/-- What the main loop has popped from a queue belongs to the worker of that queue. -/
theorem Posted.of_popped {j id : Nat} {batch : List Nat} (h : Posted setup s)
    (hm : s.main = .closing j (id :: batch)) :
    setup.loopIndex id = j ∧ id ∈ s.server.closeFunctors := by
  have hhead := h j id
  simp only [popped, hm, if_true, List.count_cons_self] at hhead
  by_cases hj : setup.loopIndex id = j
  · rw [if_pos hj] at hhead
    exact ⟨hj, List.count_pos_iff.mp (by omega)⟩
  · rw [if_neg hj] at hhead
    omega

theorem Posted.runCloseFunctor {j id : Nat} {batch : List Nat} (h : Posted setup s)
    (hm : s.main = .closing j (id :: batch)) :
    Posted setup { s with
      main := .closing j batch
      server := s.server.runCloseFunctor id } := by
  have hj := (h.of_popped hm).1
  intro i id'
  have hold := h i id'
  simp only [popped, hm, closeFunctors_runCloseFunctor] at hold ⊢
  by_cases heq : id' = id
  · subst heq
    by_cases hij : j = i
    · subst hij
      simp only [if_true, List.count_cons_self, List.count_erase_self, hj] at hold ⊢
      omega
    · rw [hj, if_neg hij, if_neg hij] at hold
      rw [hj, if_neg hij, if_neg hij]
      exact hold
  · have hcons : (id :: batch).count id' = batch.count id' :=
      List.count_cons_of_ne (Ne.symm heq)
    rw [List.count_erase_of_ne heq]
    split at hold
    · rename_i hji
      rw [hcons] at hold
      simpa [hji] using hold
    · rename_i hji
      simpa [hji] using hold

theorem Posted.postClose {j id : Nat} {closing : List Nat} (h : Posted setup s)
    (hclosing : (s.workers j).closing = id :: closing) :
    Posted setup { s with
      closeFunctors := Function.update s.closeFunctors j (s.closeFunctors j ++ [id])
      workers := Function.update s.workers j { s.workers j with closing := closing } } := by
  intro i id'
  have hold := h i id'
  by_cases hi : i = j
  · subst hi
    simp only [popped, hclosing, Function.update_self, List.count_append, List.count_cons,
      List.count_nil] at hold ⊢
    omega
  · simpa [popped, hi] using hold

theorem Posted.move {allowed : Allowed κ ρ} (h : Posted setup s)
    (hrouted : Routed setup s) (hm : Move setup allowed s t) : Posted setup t := by
  cases hm with
  | accept timeStamp context callback hm => exact h
  | invokeAllFunctors hm =>
    exact h.of_eq (fun i => by simp [popped, hm]) rfl (fun _ => rfl) rfl
  | popCloseFunctors j hm hj => exact h.popCloseFunctors hm
  | runCloseFunctor j id batch hm => exact h.runCloseFunctor hm
  | nextQueue j hm => exact h.of_eq (fun i => by simp [popped, hm]) rfl (fun _ => rfl) rfl
  | invoked j hm hj => exact h.of_eq (fun i => by simp [popped, hm]) rfl (fun _ => rfl) rfl
  | sweep now hm => exact h.of_eq (fun i => by simp [popped, hm]) rfl (fun _ => rfl) rfl
  | skip now id rest socket hm hid hactive =>
    exact h.of_eq (fun i => by simp [popped, hm]) rfl (fun _ => rfl) rfl
  | check now id rest socket hm hid hinactive hallowed =>
    exact h.of_eq (fun i => by simp [popped, hm]) rfl (fun _ => rfl) rfl
  | postCheck f rest hm hroom =>
    exact h.of_eq (fun i => by simp [popped, hm]) rfl (closing_update rfl) rfl
  | swept now hm => exact h.of_eq (fun i => by simp [popped, hm]) rfl (fun _ => rfl) rfl
  | setTimeStamp id before timeStamp hid => exact h
  | dispatch id before d hbatch hclosing hid hattached hallowed =>
    obtain ⟨after, halted, heq⟩ := dispatch_eq (runWriteComplete (setup.script id) setup.depth)
      s.server id before d
    rw [heq]
    exact h.afterCallback hclosing rfl rfl
  | popFunctors j hbatch hclosing =>
    exact h.of_eq (fun _ => rfl) rfl (closing_update hclosing.symm) rfl
  | keep j f batch before hbatch hclosing hid hactive =>
    exact h.of_eq (fun _ => rfl) rfl (closing_update hclosing.symm) rfl
  | abort j f batch before resets hbatch hclosing hid hinactive hallowed =>
    obtain ⟨after, halted, heq⟩ := abort_eq s.server f.id before resets
    have hf : f ∈ (s.workers j).batch := by simp [hbatch]
    rw [heq]
    exact h.afterCallback hclosing (hrouted j f (.inr hf)) rfl
  | postClose j id closing hclosing hroom => exact h.postClose hclosing

/-- The workers leave the main loop where it waits. -/
theorem WaitsForFew.of_le (h : WaitsForFew setup limit s) (hmain : t.main = s.main)
    (hlength : ∀ i, (t.workers i).functors.length ≤ (s.workers i).functors.length)
    (hmap : t.server.tcpConnectSocketfds = s.server.tcpConnectSocketfds) :
    WaitsForFew setup limit t := by
  intro f rest hf
  rw [hmain] at hf
  cases h f rest hf with
  | inl hroom => exact .inl (Nat.lt_of_le_of_lt (hlength _) hroom)
  | inr hfew =>
    right
    simpa only [connections, hmap] using hfew

theorem WaitsForFew.afterCallback (h : WaitsForFew setup limit s) {i : Nat}
    {batch : List CheckAndAbort} {server : TcpServer κ ρ}
    (hmap : server.tcpConnectSocketfds = s.server.tcpConnectSocketfds) :
    WaitsForFew setup limit (s.afterCallback i batch server) := by
  refine h.of_le rfl (fun j => ?_) hmap
  by_cases hj : j = i
  · subst hj
    simp [Threads.afterCallback]
  · simp [Threads.afterCallback, hj]

theorem WaitsForFew.move (h : WaitsForFew setup limit s)
    (hm : Move setup (once setup limit) s t) : WaitsForFew setup limit t := by
  cases hm with
  | check now id rest socket hm hid hinactive hallowed =>
    intro f rest' hf
    cases hf
    exact hallowed
  | setTimeStamp id before timeStamp hid => exact h.of_le rfl (fun _ => Nat.le_refl _) rfl
  | dispatch id before d hbatch hclosing hid hattached hallowed =>
    obtain ⟨after, halted, heq⟩ := dispatch_eq (runWriteComplete (setup.script id) setup.depth)
      s.server id before d
    rw [heq]
    exact h.afterCallback rfl
  | popFunctors i hbatch hclosing =>
    refine h.of_le rfl (fun j => ?_) rfl
    by_cases hj : j = i
    · subst hj
      simp
    · simp [hj]
  | keep i f batch before hbatch hclosing hid hactive =>
    refine h.of_le rfl (fun j => ?_) rfl
    by_cases hj : j = i
    · subst hj
      simp
    · simp [hj]
  | abort i f batch before resets hbatch hclosing hid hinactive hallowed =>
    obtain ⟨after, halted, heq⟩ := abort_eq s.server f.id before resets
    rw [heq]
    exact h.afterCallback rfl
  | postClose i id closing hclosing hroom =>
    refine h.of_le rfl (fun j => ?_) rfl
    by_cases hj : j = i
    · subst hj
      simp
    · simp [hj]
  | _ =>
    intro f rest hf
    simp_all

theorem accounted_move (h : Accounted s.server) (hposted : Posted setup s)
    (hrun : s.server.halted = none) (hm : Move setup (once setup limit) s t) :
    Accounted t.server := by
  cases hm with
  | accept timeStamp context callback hm =>
    exact h.newConnectionCallback timeStamp context callback
  | runCloseFunctor i id batch hm => exact h.runCloseFunctor (hposted.of_popped hm).2
  | setTimeStamp id before timeStamp hid => exact h.setTimeStamp hid timeStamp
  | dispatch id before d hbatch hclosing hid hattached hallowed =>
    have hserver : TcpServer.Step setup.script setup.depth Benign s.server _ :=
      .dispatch id before d hrun hid hattached hallowed
    exact h.step hserver
  | abort i f batch before resets hbatch hclosing hid hinactive hallowed =>
    exact h.abort hrun hid hallowed resets
  | _ => exact h

/-- A step of worker `i` adds no functor to those it has. -/
theorem Routed.of_subset (h : Routed setup s) {i : Nat} {w : Worker}
    (hworkers : t.workers = update s.workers i w)
    (hsubset : ∀ f, f ∈ w.functors ∨ f ∈ w.batch →
      f ∈ (s.workers i).functors ∨ f ∈ (s.workers i).batch) : Routed setup t := by
  intro j f hf
  rw [hworkers] at hf
  by_cases hj : j = i
  · subst hj
    rw [Function.update_self] at hf
    exact h j f (hsubset f hf)
  · rw [Function.update_of_ne hj] at hf
    exact h j f hf

theorem Routed.move {allowed : Allowed κ ρ} (h : Routed setup s)
    (hm : Move setup allowed s t) : Routed setup t := by
  cases hm with
  | postCheck f rest hm hroom =>
    intro i g hg
    by_cases hi : i = setup.loopIndex f.id
    · subst hi
      simp only [Function.update_self, List.mem_append, List.mem_singleton] at hg
      obtain (hg | hg) | hg := hg
      · exact h _ g (.inl hg)
      · rw [hg]
      · exact h _ g (.inr hg)
    · simp only [Function.update_of_ne hi] at hg
      exact h i g hg
  | dispatch id before d hbatch hclosing hid hattached hallowed =>
    refine h.of_subset rfl fun f hf => ?_
    cases hf with
    | inl hf => exact .inl hf
    | inr hf => cases hf
  | popFunctors i hbatch hclosing =>
    refine h.of_subset rfl fun f hf => ?_
    cases hf with
    | inl hf => cases hf
    | inr hf => exact .inl hf
  | keep i f batch before hbatch hclosing hid hactive =>
    refine h.of_subset rfl fun g hg => hg.imp_right fun hg => ?_
    rw [hbatch]
    exact List.mem_cons_of_mem f hg
  | abort i f batch before resets hbatch hclosing hid hinactive hallowed =>
    refine h.of_subset rfl fun g hg => hg.imp_right fun hg => ?_
    rw [hbatch]
    exact List.mem_cons_of_mem f hg
  | postClose i id closing hclosing hroom => exact h.of_subset rfl fun f hf => hf
  | _ => exact h

theorem Sound.step (h : Sound setup limit s) (hstep : Step setup (once setup limit) s t) :
    Sound setup limit t := by
  obtain ⟨hrun, hm⟩ := hstep
  constructor
  · exact accounted_move h.accounted h.posted hrun hm
  · exact h.posted.move h.routed hm
  · exact h.routed.move hm
  · exact h.waits.move hm

theorem sound_initial : Sound setup limit (initial κ ρ) where
  accounted := accounted_new
  posted i id := by
    simp [initial, popped, TcpServer.new]
  routed i f h := by simp [initial] at h
  waits f rest h := by cases h

/-- The close functors that a worker has posted belong to different connections in the map. -/
theorem Sound.length_le (h : Sound setup limit s) (i : Nat) :
    ((s.closeFunctors i).length + (s.workers i).closing.length) ≤ s.connections setup i := by
  have hcount : ∀ id, (s.closeFunctors i ++ (s.workers i).closing).count id ≤
      if setup.loopIndex id = i then s.server.closeFunctors.count id else 0 := by
    intro id
    rw [← h.posted i id, List.count_append]
    omega
  have hnodup : (s.closeFunctors i ++ (s.workers i).closing).Nodup := by
    rw [List.nodup_iff_count_le_one]
    intro id
    have hid := hcount id
    have hone := h.accounted.count_le_one id
    split at hid
    · omega
    · omega
  have hsubset : s.closeFunctors i ++ (s.workers i).closing ⊆
      s.server.tcpConnectSocketfds.filter (setup.loopIndex · = i) := by
    intro id hmem
    have hid := hcount id
    have hpos := List.count_pos_iff.mpr hmem
    by_cases hi : setup.loopIndex id = i
    · rw [if_pos hi] at hid
      have hposted : id ∈ s.server.closeFunctors := List.count_pos_iff.mp (by omega)
      simp [h.accounted.registered hposted, hi]
    · rw [if_neg hi] at hid
      omega
  rw [← List.length_append]
  exact (hnodup.subperm hsubset).length_le

end Move

section Full

variable (setup : Setup)

/-- The server after `m` connections, those of worker `0` older than the others. -/
def listening (m : Nat) : TcpServer κ ρ where
  sockets id := if id < m then
    some (started (if setup.loopIndex id = 0 then 0 else 1) none none) else none
  tcpConnectionIdCounter := m
  tcpConnectSocketfds := (List.range m).reverse
  closeFunctors := []
  halted := none

/-- Only worker `0` has anything to do. -/
def busy (server : TcpServer κ ρ) (main : MainThread) (closeFunctors : List Nat) (w : Worker) :
    Threads κ ρ :=
  ⟨server, main, update (fun _ => []) 0 closeFunctors, update (fun _ => ⟨[], [], []⟩) 0 w⟩

/-- The check-and-abort functors for the first `k` connections of worker `0`. -/
def checks (k : Nat) : List CheckAndAbort :=
  (List.range k).map fun q =>
    ⟨q * setup.threadPoolCapacity, setup.connectionTimeoutInterval + 1⟩

/-- A peer that resets its connection. -/
def resetByPeer : Dispatch :=
  ⟨epollIn ||| epollRdHup ||| epollHup, [.error (.other 104)], ⟨[], [], []⟩, 0, []⟩

variable {setup} {allowed : Allowed κ ρ}

theorem listening_succ (m : Nat) :
    (listening setup m : TcpServer κ ρ).newConnectionCallback
      (if setup.loopIndex m = 0 then 0 else 1) none none = listening setup (m + 1) := by
  simp only [listening, newConnectionCallback, List.range_succ, List.reverse_append,
    List.reverse_cons, List.reverse_nil, List.nil_append, List.singleton_append,
    TcpServer.mk.injEq, and_true]
  funext id
  by_cases hid : id = m
  · simp [hid]
  · have hlt : id < m + 1 ↔ id < m := by omega
    simp [hid, hlt]

theorem reaches_listening (m : Nat) :
    Reaches (Step setup allowed) (initial κ ρ)
      (busy (listening setup m) .looping [] ⟨[], [], []⟩) := by
  induction m with
  | zero =>
    have hinitial : initial κ ρ = busy (listening setup 0) .looping [] ⟨[], [], []⟩ := by
      simp [initial, busy, listening, TcpServer.new]
    rw [← hinitial]
  | succ m ih =>
    refine .tail ih ⟨rfl, ?_⟩
    rw [← listening_succ]
    exact .accept _ none none rfl

end Full

end Threads

end XubinhServer.TcpServer

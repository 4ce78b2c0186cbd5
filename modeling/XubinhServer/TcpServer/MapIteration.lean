import XubinhServer.Lib.Transition
import XubinhServer.TcpServer.ConnectionMap

/-! The two loops over the map: `run_for_each_connection`, while the workers go on, and the one
of `~TcpServer`, after they have been joined. -/
namespace XubinhServer.TcpServer

open Halting Transition ConnectionMap

open Function (update update_self)

/-- Which connections the callback passes to `check_and_abort_from_event_loop`, and for which of
them the predicate turns out to hold. -/
structure ForEachCallback where
  checks : Nat → Bool
  predicate : Nat → Bool

namespace ForEachCallback

def aborts (callback : ForEachCallback) (id : Nat) : Bool :=
  callback.checks id && callback.predicate id

def run (callback : ForEachCallback) (threadPoolCapacity id : Nat) : MapComp Unit :=
  if callback.checks id then
    checkAndAbortFromEventLoop threadPoolCapacity (callback.predicate id) id
  else pure ()

variable {callback : ForEachCallback} {threadPoolCapacity id : Nat} {m : ConnectionMap}
  {c : Connection} {Q : Unit → ConnectionMap → Prop} {E : MapFault → ConnectionMap → Prop}

/-- With a thread pool the callback only posts. -/
theorem wp_run_posted (hc : m.connections id = some c) (hchecks : callback.checks id = true)
    (hpool : 0 < threadPoolCapacity)
    (h : Q () { m with
      connections := update m.connections id (some { c with references := c.references + 1 })
      checks := m.checks ++ [id] }) : wp (callback.run threadPoolCapacity id) Q E m := by
  have hne : threadPoolCapacity ≠ 0 := by omega
  simp only [run, hchecks, if_true, checkAndAbortFromEventLoop, wp_bind, wp_acquire hc, hne,
    if_false, wp_modify]
  exact h

/-- Without one, a predicate that does not hold leaves everything as it was. -/
theorem wp_run_quiet (hc : m.connections id = some c) (hid : id ∈ m.entries)
    (haborts : callback.aborts id = false)
    (hpool : callback.checks id = true → threadPoolCapacity = 0) (h : Q () m) :
    wp (callback.run threadPoolCapacity id) Q E m := by
  unfold run
  split
  · rename_i hchecks
    have hpredicate : callback.predicate id = false := by simpa [aborts, hchecks] using haborts
    simp only [checkAndAbortFromEventLoop, wp_bind, wp_acquire hc, hpool hchecks, if_true,
      checkAndAbortImpl, hpredicate, Bool.false_eq_true, if_false, wp_pure]
    refine wp_release (update_self ..) ?_ (absurd hid) (absurd hid) (absurd hid)
    intro _
    simpa [← hc] using h
  · exact h

end ForEachCallback

/-- `++it`; an iterator is the key that it is at, none at the end. -/
def advance (id : Nat) : MapComp (Option Nat) := do
  let entries := (← get).entries
  if id ∈ entries then pure (entries.find? (id < ·))
  else throw (.erasedEntry id)

structure Iteration where
  map : ConnectionMap
  current : Option Nat
  visited : List Nat
  /-- the connections whose worker is in `abort_from_event_loop`, past the close callback -/
  aborting : List Nat
  fault : Option MapFault

namespace Iteration

def start (m : ConnectionMap) : Iteration where
  map := m
  current := m.entries.head?
  visited := []
  aborting := []
  fault := none

/-- A thread runs `x`, and `f` follows unless `x` ends the program. -/
def after {α : Type} (s : Iteration) (x : MapComp α) (f : α → Iteration → Iteration) :
    Iteration :=
  match x s.map with
  | .ok a m => f a { s with map := m }
  | .error e m => { s with map := m, fault := some e }

/-- One step of the main thread, which has the loop, or of one of the `workers` worker threads.
A worker does one thing at a time with a connection. -/
inductive Move (workers : Nat) (predicate : Nat → Bool) (body : Nat → MapComp Unit) :
    Iteration → Iteration → Prop
  | visit {s} (id : Nat) (hcurrent : s.current = some id) :
      Move workers predicate body s
        (s.after (do body id; advance id) fun next t =>
          { t with current := next, visited := t.visited ++ [id] })
  /-- `_check_and_abort_impl`, where the predicate does not hold -/
  | keep {s} (id : Nat) (hworkers : 0 < workers) (hid : id ∈ s.map.checks)
      (hfree : id ∉ s.aborting) (hpredicate : predicate id = false) :
      Move workers predicate body s
        ({ s with map.checks := s.map.checks.erase id }.after (release id) fun _ t => t)
  | beginAbort {s} (id : Nat) (hworkers : 0 < workers) (hid : id ∈ s.map.checks)
      (hfree : id ∉ s.aborting) (hpredicate : predicate id = true) :
      Move workers predicate body s
        ({ s with map.checks := s.map.checks.erase id }.after (beginAbort false id) fun _ t =>
          { t with aborting := id :: t.aborting })
  | endAbort {s} (id : Nat) (hid : id ∈ s.aborting) :
      Move workers predicate body s
        (s.after (do endAbort id; release id) fun _ t =>
          { t with aborting := t.aborting.erase id })
  | closeEvent {s} (id : Nat) (c : Connection) (hworkers : 0 < workers)
      (hid : s.map.connections id = some c) (hattached : c.isDetached = false)
      (hfree : id ∉ s.aborting) :
      Move workers predicate body s (s.after (closeEventCallback false id) fun _ t => t)
  /-- The main loop has no time for a close functor before the loop over the map is over. -/
  | runCloseFunctor {s} (id : Nat) (hover : s.current = none) (hid : id ∈ s.map.closeFunctors) :
      Move workers predicate body s
        ({ s with map.closeFunctors := s.map.closeFunctors.erase id }.after
          (ConnectionMap.runCloseFunctor id) fun _ t => t)

/-- A step before the program has ended. -/
def Step (workers : Nat) (predicate : Nat → Bool) (body : Nat → MapComp Unit)
    (s t : Iteration) : Prop :=
  s.fault = none ∧ Move workers predicate body s t

/-- Every functor that the loop has posted has run. -/
def Settled (t : Iteration) : Prop :=
  t.fault = none ∧ t.current = none ∧ t.map.checks = [] ∧ t.aborting = []

/-- The loop over the entries of `m` goes well up to `t`; `closing` are the connections that it
has to close. -/
structure Safe (m : ConnectionMap) (closing : Nat → Bool) (t : Iteration) : Prop where
  valid : ∀ id, t.fault ≠ some (.erasedEntry id) ∧ t.fault ≠ some (.destroyedObject id)
  /-- A loop that is not over is interrupted by nothing but a failure of the kernel. -/
  uninterrupted : t.current ≠ none → t.fault ≠ some (.logFatal "never reaches here")
  visits : t.visited <+: m.entries
  finished : t.current = none → t.visited = m.entries
  once : t.fault = none → ∀ id ∈ m.entries, t.map.closes id ≤ 1
  destroyed : t.fault = none → ∀ id ∈ m.entries, t.map.connections id = none →
    t.map.closes id = 1
  closed : t.Settled → ∀ id ∈ m.entries, closing id = true → t.map.closes id = 1

end Iteration

/-- The connections in the map are live: each is there, and nothing has closed it. -/
structure ConnectionMap.Live (m : ConnectionMap) : Prop where
  ordered : m.entries.Pairwise (· < ·)
  connected : ∀ id ∈ m.entries, ∃ c, m.connections id = some c ∧ c.isReset = false ∧
    c.isAborted = false
  opened : ∀ id ∈ m.entries, m.closes id = 0
  unchecked : m.checks = []

theorem ConnectionMap.Live.nodup {m : ConnectionMap} (hm : m.Live) : m.entries.Nodup :=
  hm.ordered.imp Nat.ne_of_lt

/-- Every run of a loop over the map goes well, whatever the kernel answers. -/
def LoopSound (workers : Nat) (predicate : Nat → Bool) (body : Nat → MapComp Unit)
    (closing : Nat → Bool) (m : ConnectionMap) : Prop :=
  ∀ resets t, Reaches (Iteration.Step workers predicate body)
    (.start { m with resets := resets }) t → t.Safe m closing

/-- `run_for_each_connection` and what follows from it. -/
def RunForEachConnectionSound (threadPoolCapacity : Nat) (callback : ForEachCallback)
    (m : ConnectionMap) : Prop :=
  LoopSound threadPoolCapacity callback.predicate (callback.run threadPoolCapacity)
    callback.aborts m

/-- The loop of `~TcpServer`, in the thread of the main loop. -/
def DestructorSound (m : ConnectionMap) : Prop :=
  LoopSound 0 (fun _ => false) (resetConnection true) (fun _ => true) m

namespace Iteration

/-- A check of `id` has been posted and has not come to its end. -/
def Waits (t : Iteration) (id : Nat) : Prop := id ∈ t.map.checks ∨ id ∈ t.aborting

/-- What holds of the connection `id` between two steps. -/
structure Connected (aborts : Nat → Bool) (t : Iteration) (id : Nat) : Prop where
  alive : id ∈ t.map.entries → ∃ c, t.map.connections id = some c
  /-- the functor shares the connection -/
  waiting : t.Waits id → ∃ c, t.map.connections id = some c ∧ 0 < c.references ∧
    c.isReset = false ∧ c.isAborted = false
  unvisited : id ∉ t.visited → ∃ c, t.map.connections id = some c ∧ c.isReset = false ∧
    c.isAborted = false
  counted : ∀ c, t.map.connections id = some c → t.map.closes id = if c.isReset then 1 else 0
  destroyed : t.map.connections id = none → t.map.closes id = 1
  closed : id ∈ t.visited → aborts id = true → t.Waits id ∨ t.map.closes id = 1

structure Inv (m : ConnectionMap) (aborts : Nat → Bool) (t : Iteration) : Prop where
  running : t.fault = none
  ahead : ∃ rest, t.visited ++ rest = m.entries ∧ t.current = rest.head? ∧
    (rest ≠ [] → t.map.entries = m.entries)
  entries : t.map.entries.Sublist m.entries
  waits : ∀ id, t.Waits id → id ∈ t.visited
  nodup : (t.map.checks ++ t.aborting).Nodup
  connected : ∀ id ∈ m.entries, t.Connected aborts id

/-- The state in which the program has ended early. -/
structure Ended (m : ConnectionMap) (t : Iteration) : Prop where
  fault : ∃ message, t.fault = some (.logFatal message) ∧
    (t.current ≠ none → message ≠ "never reaches here")
  ahead : ∃ rest, t.visited ++ rest = m.entries ∧ t.current = rest.head?

variable {m : ConnectionMap} {aborts : Nat → Bool} {s t : Iteration} {id : Nat}

theorem wp_after {α : Type} {P : Iteration → Prop} {x : MapComp α}
    {f : α → Iteration → Iteration}
    (h : wp x (fun a m => P (f a { s with map := m }))
      (fun e m => P { s with map := m, fault := some e }) s.map) : P (s.after x f) := by
  unfold wp at h
  unfold after
  cases hx : x s.map with
  | ok a m => rw [hx] at h; exact h
  | error e m => rw [hx] at h; exact h

theorem Inv.safe (h : Inv m aborts t) : t.Safe m aborts := by
  obtain ⟨rest, hrest, hcurrent, -⟩ := h.ahead
  refine ⟨fun id => by simp [h.running], fun _ => by simp [h.running], ⟨rest, hrest⟩, ?_, ?_, ?_,
    ?_⟩
  · intro hover
    rw [hover] at hcurrent
    have hnil : rest = [] := List.head?_eq_none_iff.mp hcurrent.symm
    simpa [hnil] using hrest
  · intro _ id hid
    cases hc : t.map.connections id with
    | none => exact Nat.le_of_eq ((h.connected id hid).destroyed hc)
    | some c =>
      rw [(h.connected id hid).counted c hc]
      split <;> simp
  · exact fun _ id hid => (h.connected id hid).destroyed
  · intro hsettled id hid haborts
    have hall : t.visited = m.entries := by
      have hnil : rest = [] := List.head?_eq_none_iff.mp (hcurrent.symm.trans hsettled.2.1)
      simpa [hnil] using hrest
    cases (h.connected id hid).closed (by rwa [hall]) haborts with
    | inl hw => simp [Waits, hsettled.2.2.1, hsettled.2.2.2] at hw
    | inr hone => exact hone

theorem Ended.safe (h : Ended m t) : t.Safe m aborts := by
  obtain ⟨rest, hrest, hcurrent⟩ := h.ahead
  obtain ⟨message, hfault, hmessage⟩ := h.fault
  refine ⟨fun id => by simp [hfault], fun hc => by simpa [hfault] using hmessage hc,
    ⟨rest, hrest⟩, ?_, fun hn => by simp [hfault] at hn, fun hn => by simp [hfault] at hn,
    fun hn => by simp [hn.1] at hfault⟩
  intro hover
  rw [hover] at hcurrent
  have hnil : rest = [] := List.head?_eq_none_iff.mp hcurrent.symm
  simpa [hnil] using hrest

/-- A step that does not touch the connection `id` leaves what holds of it. -/
theorem Connected.frame (h : s.Connected aborts id)
    (hentries : id ∈ t.map.entries ↔ id ∈ s.map.entries)
    (hconnections : t.map.connections id = s.map.connections id)
    (hcloses : t.map.closes id = s.map.closes id) (hwaits : t.Waits id ↔ s.Waits id)
    (hvisited : id ∈ t.visited ↔ id ∈ s.visited) : t.Connected aborts id := by
  refine ⟨?_, ?_, ?_, ?_, ?_, ?_⟩
  · rw [hentries, hconnections]; exact h.alive
  · rw [hwaits, hconnections]; exact h.waiting
  · rw [hvisited, hconnections]; exact h.unvisited
  · rw [hconnections, hcloses]; exact h.counted
  · rw [hconnections, hcloses]; exact h.destroyed
  · rw [hvisited, hwaits, hcloses]; exact h.closed

/-- The flags and the references of a connection are all that counts. -/
theorem Connected.store (h : s.Connected aborts id) {c c' : Connection}
    (hc : s.map.connections id = some c) (hc' : t.map.connections id = some c')
    (hreferences : c'.references = c.references) (hreset : c'.isReset = c.isReset)
    (haborted : c'.isAborted = c.isAborted) (hcloses : t.map.closes id = s.map.closes id)
    (hwaits : t.Waits id ↔ s.Waits id) (hvisited : id ∈ t.visited ↔ id ∈ s.visited) :
    t.Connected aborts id := by
  refine ⟨fun _ => ⟨c', hc'⟩, ?_, ?_, ?_, ?_, ?_⟩
  · intro hw
    obtain ⟨b, hb, hrefs, hr, ha⟩ := h.waiting (hwaits.mp hw)
    obtain rfl : b = c := Option.some.inj (hb.symm.trans hc)
    exact ⟨c', hc', by omega, by rw [hreset, hr], by rw [haborted, ha]⟩
  · intro hv
    obtain ⟨b, hb, hr, ha⟩ := h.unvisited (by rwa [← hvisited])
    obtain rfl : b = c := Option.some.inj (hb.symm.trans hc)
    exact ⟨c', hc', by rw [hreset, hr], by rw [haborted, ha]⟩
  · intro b hb
    obtain rfl : b = c' := Option.some.inj (hb.symm.trans hc')
    rw [hcloses, hreset]
    exact h.counted c hc
  · simp [hc']
  · rw [hvisited, hwaits, hcloses]
    exact h.closed

theorem Ended.of_inv (h : Inv m aborts s) {message : String} (hvisited : t.visited = s.visited)
    (hcurrent : t.current = s.current) (hfault : t.fault = some (.logFatal message))
    (hmessage : s.current ≠ none → message ≠ "never reaches here") : Ended m t := by
  obtain ⟨rest, hrest, hc, -⟩ := h.ahead
  exact ⟨⟨message, hfault, by rwa [hcurrent]⟩, rest, by rwa [hvisited], by rwa [hcurrent]⟩

/-- A step of a worker is about one connection. -/
theorem Inv.update (h : Inv m aborts s) (id : Nat) (hrunning : t.fault = none)
    (hvisited : t.visited = s.visited) (hcurrent : t.current = s.current)
    (hentries : t.map.entries = s.map.entries)
    (hnodup : (t.map.checks ++ t.aborting).Nodup) (hid : t.Waits id → s.Waits id)
    (hother : ∀ i, i ≠ id → t.map.connections i = s.map.connections i ∧
      t.map.closes i = s.map.closes i ∧ (t.Waits i ↔ s.Waits i))
    (hconn : id ∈ m.entries → t.Connected aborts id) : Inv m aborts t := by
  refine ⟨hrunning, ?_, by rw [hentries]; exact h.entries, ?_, hnodup, ?_⟩
  · rw [hvisited, hcurrent, hentries]
    exact h.ahead
  · intro i hi
    rw [hvisited]
    by_cases hne : i = id
    · subst hne
      exact h.waits i (hid hi)
    · exact h.waits i ((hother i hne).2.2.mp hi)
  · intro i hi
    by_cases hne : i = id
    · subst hne
      exact hconn hi
    · obtain ⟨hconnections, hcloses, hwaits⟩ := hother i hne
      exact (h.connected i hi).frame (by rw [hentries]) hconnections hcloses hwaits
        (by rw [hvisited])

theorem Inv.mem_entries (h : Inv m aborts s) (hid : s.Waits id) : id ∈ m.entries := by
  obtain ⟨rest, hrest, -⟩ := h.ahead
  rw [← hrest]
  exact List.mem_append_left _ (h.waits id hid)

/-- Between two steps, or after the program has ended. -/
def Fine (m : ConnectionMap) (aborts : Nat → Bool) (t : Iteration) : Prop :=
  Inv m aborts t ∨ Ended m t

/-- What is left of a connection once its check is over. -/
theorem Connected.settled (hvisited : id ∈ t.visited) (hwaits : ¬t.Waits id)
    (halive : id ∈ t.map.entries → ∃ c, t.map.connections id = some c)
    (hcounted : ∀ c, t.map.connections id = some c →
      t.map.closes id = if c.isReset then 1 else 0)
    (hdestroyed : t.map.connections id = none → t.map.closes id = 1)
    (hclosed : aborts id = true → t.map.closes id = 1) : t.Connected aborts id :=
  ⟨halive, fun hw => absurd hw hwaits, fun hv => absurd hvisited hv, hcounted, hdestroyed,
    fun _ ha => Or.inr (hclosed ha)⟩

/-- A functor that has found its predicate false gives its `shared_ptr` back. -/
theorem Inv.keep (h : Inv m aborts s) (hid : id ∈ s.map.checks) (hfree : id ∉ s.aborting)
    (haborts : aborts id = false) :
    Fine m aborts
      ({ s with map.checks := s.map.checks.erase id }.after (release id) fun _ t => t) := by
  have hwaits : s.Waits id := Or.inl hid
  have hconn := h.connected id (h.mem_entries hwaits)
  obtain ⟨c, hc, hrefs, hreset, -⟩ := hconn.waiting hwaits
  have hzero : s.map.closes id = 0 := by simpa [hreset] using hconn.counted c hc
  have hchecks : s.map.checks.Nodup := (List.nodup_append.mp h.nodup).1
  have hgone : ¬(id ∈ s.map.checks.erase id ∨ id ∈ s.aborting) := by
    simp [hchecks.not_mem_erase, hfree]
  have hnodup : (s.map.checks.erase id ++ s.aborting).Nodup :=
    h.nodup.sublist (List.Sublist.append_right List.erase_sublist _)
  apply wp_after
  refine wp_release hc ?_ ?_ ?_ ?_
  · intro _
    refine Or.inl (h.update id h.running rfl rfl rfl hnodup
      (Or.imp_left List.mem_of_mem_erase) ?_ fun _ => ?_)
    · intro i hne
      simp [Waits, List.mem_erase_of_ne hne, hne]
    · exact .settled (h.waits id hwaits) hgone (fun _ => ⟨_, update_self ..⟩)
        (by simp [hreset, hzero]) (by simp) (by simp [haborts])
  · simp [hreset]
  · intro hnot _
    refine Or.inl (h.update id h.running rfl rfl rfl hnodup
      (Or.imp_left List.mem_of_mem_erase) ?_ fun _ => ?_)
    · intro i hne
      simp [Waits, List.mem_erase_of_ne hne, hne]
    · exact .settled (h.waits id hwaits) hgone (fun hi => absurd hi hnot) (by simp)
        (by simp [hzero]) (by simp [haborts])
  · intro _ _ _ t
    exact Or.inr (Ended.of_inv h rfl rfl rfl fun _ => by decide)

/-- A functor that has found its predicate true detaches the connection and notifies the main
loop. -/
theorem Inv.beginAbort (h : Inv m aborts s) (hid : id ∈ s.map.checks) :
    Fine m aborts
      ({ s with map.checks := s.map.checks.erase id }.after (beginAbort false id) fun _ t =>
        { t with aborting := id :: t.aborting }) := by
  have hwaits : s.Waits id := Or.inl hid
  have hconn := h.connected id (h.mem_entries hwaits)
  obtain ⟨c, hc, hrefs, hreset, haborted⟩ := hconn.waiting hwaits
  have hperm : (s.map.checks.erase id ++ id :: s.aborting).Perm (s.map.checks ++ s.aborting) :=
    List.perm_middle.trans ((List.perm_cons_erase hid).symm.append_right _)
  apply wp_after
  refine wp_beginAbort_posted hc haborted hreset ?_
  refine Or.inl (h.update id h.running rfl rfl rfl (hperm.nodup_iff.mpr h.nodup)
    (fun _ => hwaits) ?_ fun _ => ?_)
  · intro i hne
    simp [Waits, List.mem_erase_of_ne hne, hne]
  · exact hconn.store hc (update_self ..) rfl rfl rfl rfl (by simp [Waits, hid]) Iff.rfl

/-- The worker closes the descriptor and gives the `shared_ptr` back. -/
theorem Inv.endAbort (h : Inv m aborts s) (hid : id ∈ s.aborting) :
    Fine m aborts (s.after (do endAbort id; release id) fun _ t =>
      { t with aborting := t.aborting.erase id }) := by
  have hwaits : s.Waits id := Or.inr hid
  have hconn := h.connected id (h.mem_entries hwaits)
  obtain ⟨c, hc, hrefs, hreset, haborted⟩ := hconn.waiting hwaits
  have hzero : s.map.closes id = 0 := by simpa [hreset] using hconn.counted c hc
  obtain ⟨-, haborting, hdisjoint⟩ := List.nodup_append.mp h.nodup
  have hgone : ¬(id ∈ s.map.checks ∨ id ∈ s.aborting.erase id) := by
    intro hw
    cases hw with
    | inl hw => exact hdisjoint id hw id hid rfl
    | inr hw => exact haborting.not_mem_erase hw
  have hnodup : (s.map.checks ++ s.aborting.erase id).Nodup :=
    h.nodup.sublist (List.Sublist.append_left List.erase_sublist _)
  apply wp_after
  rw [wp_bind]
  refine wp_endAbort hc ?_ ?_
  · refine wp_release (update_self ..) ?_ ?_ ?_ ?_
    · intro _
      refine Or.inl (h.update id h.running rfl rfl rfl hnodup (fun _ => hwaits) ?_
        fun _ => ?_)
      · intro i hne
        simp [Waits, List.mem_erase_of_ne hne, hne]
      · exact .settled (h.waits id hwaits) hgone (fun _ => ⟨_, update_self ..⟩) (by simp [hzero])
          (by simp) (by simp [hzero])
    · intro hnot _
      refine Or.inl (h.update id h.running rfl rfl rfl hnodup (fun _ => hwaits) ?_
        fun _ => ?_)
      · intro i hne
        simp [Waits, List.mem_erase_of_ne hne, hne]
      · exact .settled (h.waits id hwaits) hgone (fun hi => absurd hi hnot) (by simp)
          (by simp [hzero]) (by simp [hzero])
    · simp
    · intro _ _ _ t
      exact Or.inr (Ended.of_inv h rfl rfl rfl fun _ => by decide)
  · intro _ message t hmessage
    exact Or.inr (Ended.of_inv h rfl rfl rfl fun _ => hmessage)

/-- A close event detaches the connection and notifies the main loop. -/
theorem Inv.closeEvent (h : Inv m aborts s) {c : Connection} (hc : s.map.connections id = some c) :
    Fine m aborts (s.after (closeEventCallback false id) fun _ t => t) := by
  apply wp_after
  rw [closeEventCallback, wp_bind, wp_detachFromPoller hc, wp_closeCallback_posted]
  refine Or.inl (h.update id h.running rfl rfl rfl h.nodup (fun hw => hw) ?_ fun hid => ?_)
  · intro i hne
    simp [Waits, hne]
  · exact (h.connected id hid).store hc (update_self ..) rfl rfl rfl rfl Iff.rfl Iff.rfl

/-- Erasing the entry of `id` is about that connection alone, whether it destroys it or not. -/
theorem Inv.erased (h : Inv m aborts s) (hover : s.current = none) (hrunning : t.fault = none)
    (hvisited : t.visited = s.visited) (hcurrent : t.current = s.current)
    (hentries : t.map.entries = s.map.entries.erase id)
    (hchecks : t.map.checks = s.map.checks) (haborting : t.aborting = s.aborting)
    (hother : ∀ i, i ≠ id → t.map.connections i = s.map.connections i ∧
      t.map.closes i = s.map.closes i)
    (hconn : t.Connected aborts id) : Inv m aborts t := by
  have hwaits (i : Nat) : t.Waits i ↔ s.Waits i := by simp [Waits, hchecks, haborting]
  obtain ⟨rest, hrest, hhead, -⟩ := h.ahead
  have hnil : rest = [] := List.head?_eq_none_iff.mp (hhead.symm.trans hover)
  refine ⟨hrunning, ⟨rest, by rwa [hvisited], by rwa [hcurrent], by simp [hnil]⟩, ?_, ?_, ?_, ?_⟩
  · rw [hentries]
    exact List.erase_sublist.trans h.entries
  · intro i hi
    rw [hvisited]
    exact h.waits i ((hwaits i).mp hi)
  · rw [hchecks, haborting]
    exact h.nodup
  · intro i hi
    by_cases hne : i = id
    · rwa [hne]
    · obtain ⟨hconnections, hcloses⟩ := hother i hne
      refine (h.connected i hi).frame ?_ hconnections hcloses (hwaits i) (by rw [hvisited])
      rw [hentries, List.mem_erase_of_ne hne]

theorem Inv.visited_eq (h : Inv m aborts s) (hover : s.current = none) :
    s.visited = m.entries := by
  obtain ⟨rest, hrest, hhead, -⟩ := h.ahead
  have hnil : rest = [] := List.head?_eq_none_iff.mp (hhead.symm.trans hover)
  simpa [hnil] using hrest

/-- Once the loop is over, the main loop erases the entry of a connection that has been closed. -/
theorem Inv.runCloseFunctor (h : Inv m aborts s) (hm : m.entries.Nodup)
    (hover : s.current = none) :
    Fine m aborts ({ s with map.closeFunctors := s.map.closeFunctors.erase id }.after
      (ConnectionMap.runCloseFunctor id) fun _ t => t) := by
  apply wp_after
  rw [ConnectionMap.runCloseFunctor, wp_bind, wp_get, wp_ite]
  split
  · rename_i hid
    have hmem : id ∈ m.entries := h.entries.subset hid
    have hvisited : id ∈ s.visited := by rwa [h.visited_eq hover]
    have hconn := h.connected id hmem
    obtain ⟨c, hc⟩ := hconn.alive hid
    have hgone : id ∉ s.map.entries.erase id := (h.entries.nodup hm).not_mem_erase
    have hfree (hrefs : c.references = 0) : ¬s.Waits id := by
      intro hw
      obtain ⟨b, hb, hpos, -⟩ := hconn.waiting hw
      obtain rfl : b = c := Option.some.inj (hb.symm.trans hc)
      omega
    refine wp_eraseEntry hc ?_ ?_ ?_ ?_
    · intro _
      refine Or.inl (h.erased hover h.running rfl rfl rfl rfl rfl (fun _ _ => ⟨rfl, rfl⟩) ?_)
      exact ⟨fun hi => absurd hi hgone, hconn.waiting, hconn.unvisited, hconn.counted,
        hconn.destroyed, hconn.closed⟩
    · intro hrefs hreset
      have hone : s.map.closes id = 1 := by simpa [hreset] using hconn.counted c hc
      refine Or.inl (h.erased hover h.running rfl rfl rfl rfl rfl (fun i hne => by simp [hne]) ?_)
      exact .settled hvisited (hfree hrefs) (fun hi => absurd hi hgone) (by simp)
        (fun _ => hone) fun _ => hone
    · intro hrefs hreset
      have hzero : s.map.closes id = 0 := by simpa [hreset] using hconn.counted c hc
      refine Or.inl (h.erased hover h.running rfl rfl rfl rfl rfl (fun i hne => by simp [hne]) ?_)
      exact .settled hvisited (hfree hrefs) (fun hi => absurd hi hgone) (by simp)
        (by simp [hzero]) (by simp [hzero])
    · intro _ _ _ t
      exact Or.inr (Ended.of_inv h rfl rfl rfl fun _ => by decide)
  · exact Or.inr (Ended.of_inv h rfl rfl rfl fun hn => absurd hover hn)

/-- The next greater key is the next entry. -/
theorem find?_of_ordered {visited rest : List Nat}
    (h : (visited ++ id :: rest).Pairwise (· < ·)) :
    (visited ++ id :: rest).find? (id < ·) = rest.head? := by
  obtain ⟨-, hrest, hbefore⟩ := List.pairwise_append.mp h
  have hnone : visited.find? (id < ·) = none := by
    rw [List.find?_eq_none]
    intro i hi
    have hlt := hbefore i hi id List.mem_cons_self
    simp only [decide_eq_true_eq]
    omega
  rw [List.find?_append, hnone]
  cases rest with
  | nil => simp
  | cons i rest =>
    have hlt : id < i := List.rel_of_pairwise_cons hrest List.mem_cons_self
    simp [hlt]

theorem wp_advance {visited rest : List Nat} {n : ConnectionMap}
    {Q : Option Nat → ConnectionMap → Prop} {E : MapFault → ConnectionMap → Prop}
    (hn : n.entries = visited ++ id :: rest) (hordered : n.entries.Pairwise (· < ·))
    (h : Q rest.head? n) : wp (advance id) Q E n := by
  have hid : id ∈ n.entries := by simp [hn]
  rw [hn] at hordered
  rw [advance, wp_bind, wp_get, wp_ite, if_pos hid, wp_pure, hn, find?_of_ordered hordered]
  exact h

/-- A visit is about one connection. -/
theorem Inv.visited {rest : List Nat} (h : Inv m aborts s)
    (hrest : s.visited ++ id :: rest = m.entries) (hrunning : t.fault = none)
    (hvisited : t.visited = s.visited ++ [id]) (hcurrent : t.current = rest.head?)
    (hentries : t.map.entries = m.entries) (hsame : s.map.entries = m.entries)
    (hnodup : (t.map.checks ++ t.aborting).Nodup)
    (hother : ∀ i, i ≠ id → t.map.connections i = s.map.connections i ∧
      t.map.closes i = s.map.closes i ∧ (t.Waits i ↔ s.Waits i))
    (hconn : t.Connected aborts id) : Inv m aborts t := by
  refine ⟨hrunning, ⟨rest, by simpa [hvisited] using hrest, hcurrent, fun _ => hentries⟩,
    hentries ▸ List.Sublist.refl _, ?_, hnodup, ?_⟩
  · intro i hi
    rw [hvisited]
    by_cases hne : i = id
    · simp [hne]
    · exact List.mem_append_left _ (h.waits i ((hother i hne).2.2.mp hi))
  · intro i hi
    by_cases hne : i = id
    · rwa [hne]
    · obtain ⟨hconnections, hcloses, hwaits⟩ := hother i hne
      refine (h.connected i hi).frame (by rw [hentries, hsame]) hconnections hcloses hwaits ?_
      simp [hvisited, hne]

/-- A visit that does not close the connection in place takes the loop to the next entry. -/
theorem Inv.visit {callback : ForEachCallback} {threadPoolCapacity : Nat}
    (h : Inv m callback.aborts s) (hordered : m.entries.Pairwise (· < ·))
    (hquiet : 0 < threadPoolCapacity ∨ ∀ i ∈ m.entries, callback.aborts i = false)
    (hcurrent : s.current = some id) :
    Fine m callback.aborts
      (s.after (do callback.run threadPoolCapacity id; advance id) fun next t =>
        { t with current := next, visited := t.visited ++ [id] }) := by
  obtain ⟨rest, hrest, hhead, hentries⟩ := h.ahead
  cases rest with
  | nil => simp [hcurrent] at hhead
  | cons i rest =>
    obtain rfl : id = i := by simpa [hcurrent] using hhead
    have hsame : s.map.entries = m.entries := hentries (by simp)
    have hsorted : s.map.entries.Pairwise (· < ·) := by rwa [hsame]
    have hsplit : s.map.entries = s.visited ++ id :: rest := by rw [hsame, hrest]
    have hid : id ∈ m.entries := by simp [← hrest]
    have hnew : id ∉ s.visited := by
      intro hv
      rw [← hrest] at hordered
      exact Nat.lt_irrefl id ((List.pairwise_append.mp hordered).2.2 id hv id List.mem_cons_self)
    have hfree : ¬s.Waits id := fun hw => hnew (h.waits id hw)
    have hconn := h.connected id hid
    obtain ⟨c, hc, hreset, haborted⟩ := hconn.unvisited hnew
    apply wp_after
    rw [wp_bind]
    by_cases hposts : callback.checks id = true ∧ 0 < threadPoolCapacity
    · refine ForEachCallback.wp_run_posted hc hposts.1 hposts.2 (wp_advance hsplit hsorted
        (Or.inl (h.visited hrest h.running rfl rfl hsame hsame ?_ ?_ ?_)))
      · have hperm : (s.map.checks ++ [id] ++ s.aborting).Perm
            (id :: (s.map.checks ++ s.aborting)) := by
          simp
        exact hperm.nodup_iff.mpr (List.nodup_cons.mpr ⟨by simpa [Waits] using hfree, h.nodup⟩)
      · intro i hne
        simp [Waits, hne]
      · refine ⟨fun _ => ⟨_, update_self ..⟩, fun _ => ⟨_, update_self .., by simp, hreset,
          haborted⟩, by simp, ?_, by simp, fun _ _ => Or.inl (by simp [Waits])⟩
        simpa using hconn.counted c hc
    · have haborts : callback.aborts id = false ∧
          (callback.checks id = true → threadPoolCapacity = 0) := by
        cases hquiet with
        | inl hpos => simp_all [ForEachCallback.aborts]
        | inr hall => exact ⟨hall id hid, fun hchecks => by simpa [hchecks] using hposts⟩
      refine ForEachCallback.wp_run_quiet hc (hsame ▸ hid) haborts.1 haborts.2
        (wp_advance hsplit hsorted (Or.inl (h.visited hrest h.running rfl rfl hsame hsame h.nodup
          (fun i _ => ⟨rfl, rfl, Iff.rfl⟩) ?_)))
      exact .settled (by simp) hfree (fun _ => ⟨c, hc⟩) hconn.counted hconn.destroyed
        (by simp [haborts.1])

theorem wp_advance_erased {n : ConnectionMap} {Q : Option Nat → ConnectionMap → Prop}
    {E : MapFault → ConnectionMap → Prop} (hid : id ∉ n.entries) (h : E (.erasedEntry id) n) :
    wp (advance id) Q E n := by
  rw [advance, wp_bind, wp_get, wp_ite, if_neg hid, wp_throw]
  exact h

/-- What the threads do between two visits keeps the invariant. -/
theorem Inv.move {callback : ForEachCallback} {threadPoolCapacity : Nat}
    (h : Inv m callback.aborts s) (hordered : m.entries.Pairwise (· < ·))
    (hquiet : 0 < threadPoolCapacity ∨ ∀ i ∈ m.entries, callback.aborts i = false)
    (hst : Move threadPoolCapacity callback.predicate (callback.run threadPoolCapacity) s t) :
    Fine m callback.aborts t := by
  cases hst with
  | visit id hcurrent => exact h.visit hordered hquiet hcurrent
  | keep id _ hid hfree hpredicate =>
    exact h.keep hid hfree (by simp [ForEachCallback.aborts, hpredicate])
  | beginAbort id _ hid => exact h.beginAbort hid
  | endAbort id hid => exact h.endAbort hid
  | closeEvent id c _ hid => exact h.closeEvent hid
  | runCloseFunctor id hover =>
    exact h.runCloseFunctor (hordered.imp Nat.ne_of_lt) hover

theorem inv_start (hm : m.Live) (resets : List ResetResult) :
    Inv m aborts (start { m with resets := resets }) := by
  have hfree (id : Nat) : ¬(start { m with resets := resets }).Waits id := by
    simp [Waits, start, hm.unchecked]
  refine ⟨rfl, ⟨m.entries, rfl, rfl, fun _ => rfl⟩, List.Sublist.refl _,
    fun id hid => absurd hid (hfree id), by simp [start, hm.unchecked], ?_⟩
  intro id hid
  obtain ⟨c, hc, hreset, haborted⟩ := hm.connected id hid
  have hc' : (start { m with resets := resets }).map.connections id = some c := hc
  refine ⟨fun _ => ⟨c, hc⟩, fun hw => absurd hw (hfree id), fun _ => ⟨c, hc, hreset, haborted⟩,
    ?_, by simp [hc'], by simp [start]⟩
  intro b hb
  obtain rfl : b = c := Option.some.inj (hb.symm.trans hc)
  simpa [start, hreset] using hm.opened id hid

/-- A visit that uses an erased entry or a destroyed connection breaks the loop. -/
theorem not_safe_of_visit {body : Nat → MapComp Unit} {f : Option Nat → Iteration → Iteration}
    (h : wp (do body id; advance id) (fun _ _ => False)
      (fun e _ => e = .erasedEntry id ∨ e = .destroyedObject id) s.map) :
    ¬(s.after (do body id; advance id) f).Safe m aborts := by
  have hfault : (s.after (do body id; advance id) f).fault = some (.erasedEntry id) ∨
      (s.after (do body id; advance id) f).fault = some (.destroyedObject id) := by
    refine wp_after (P := fun t => t.fault = some (.erasedEntry id) ∨
      t.fault = some (.destroyedObject id)) ?_
    exact wp_mono h (fun _ _ hfalse => hfalse.elim) fun e _ he => by simpa using he
  intro hsafe
  cases hfault with
  | inl he => exact (hsafe.valid id).1 he
  | inr he => exact (hsafe.valid id).2 he

/-- Without a thread pool, aborting the visited connection erases the entry that the iterator is
at. -/
theorem wp_visit_inPlace {callback : ForEachCallback} {n : ConnectionMap} {c : Connection}
    (hc : n.connections id = some c) (hreset : c.isReset = false) (haborted : c.isAborted = false)
    (hid : id ∈ n.entries) (hnodup : n.entries.Nodup) (hresets : n.resets = [])
    (haborts : callback.aborts id = true) :
    wp (do callback.run 0 id; advance id) (fun _ _ => False)
      (fun e _ => e = .erasedEntry id ∨ e = .destroyedObject id) n := by
  obtain ⟨hchecks, hpredicate⟩ : callback.checks id = true ∧ callback.predicate id = true := by
    simpa [ForEachCallback.aborts] using haborts
  have hgone : id ∉ n.entries.erase id := hnodup.not_mem_erase
  simp only [ForEachCallback.run, hchecks, if_true, checkAndAbortFromEventLoop, hpredicate,
    checkAndAbortImpl, abortFromEventLoop_eq, wp_bind, wp_acquire hc]
  refine wp_beginAbort_inPlace (update_self ..) haborted hreset hid (by simp) ?_
  refine wp_endAbort (update_self ..) ?_ ?_
  · refine wp_release (update_self ..) ?_ ?_ ?_ ?_
    · exact fun _ => wp_advance_erased hgone (Or.inl rfl)
    · exact fun _ _ => wp_advance_erased hgone (Or.inl rfl)
    · simp
    · simp
  · simp [hresets]

/-- In the thread of the main loop a reset destroys the connection or, where something else shares
it, erases the entry that the iterator is at. -/
theorem wp_reset_inPlace {n : ConnectionMap} {c : Connection} (hc : n.connections id = some c)
    (hreset : c.isReset = false) (hid : id ∈ n.entries) (hnodup : n.entries.Nodup)
    (hresets : n.resets = []) :
    wp (do resetConnection true id; advance id) (fun _ _ => False)
      (fun e _ => e = .erasedEntry id ∨ e = .destroyedObject id) n := by
  have hgone : id ∉ n.entries.erase id := hnodup.not_mem_erase
  rw [wp_bind, resetConnection, wp_bind]
  refine wp_notifyReset true hc hreset (wp_closeCallback_inPlace hid ?_)
  refine wp_eraseEntry hc ?_ ?_ ?_ ?_
  · intro _
    exact wp_finishReset hc (wp_advance_erased hgone (Or.inl rfl)) (by simp [hresets])
  · simp [hreset]
  · intro _ _
    rw [finishReset, wp_bind, wp_reach_destroyed (update_self ..)]
    exact Or.inr rfl
  · simp [hresets]

/-- Where the callback aborts nothing, the loop leaves the map and the connections as they were. -/
theorem reaches_quiet {callback : ForEachCallback} {n : ConnectionMap}
    (hordered : n.entries.Pairwise (· < ·))
    (hconnected : ∀ i ∈ n.entries, ∃ c, n.connections i = some c) {ahead rest : List Nat} :
    ∀ visited, visited ++ (ahead ++ rest) = n.entries →
      (∀ i ∈ ahead, callback.aborts i = false) →
      Reaches (Step 0 callback.predicate (callback.run 0))
        ⟨n, (ahead ++ rest).head?, visited, [], none⟩
        ⟨n, rest.head?, visited ++ ahead, [], none⟩ := by
  induction ahead with
  | nil =>
    intro visited _ _
    rw [List.append_nil]
    exact .refl
  | cons id ahead ih =>
    intro visited hn hquiet
    have hid : id ∈ n.entries := by simp [← hn]
    obtain ⟨c, hc⟩ := hconnected id hid
    have hrun : wp (do callback.run 0 id; advance id)
        (fun next t => next = (ahead ++ rest).head? ∧ t = n) (fun _ _ => False) n := by
      rw [wp_bind]
      exact ForEachCallback.wp_run_quiet hc hid (hquiet id List.mem_cons_self) (fun _ => rfl)
        (wp_advance hn.symm hordered ⟨rfl, rfl⟩)
    obtain ⟨next, t, hok, rfl, rfl⟩ := ok_of_wp hrun
    have hstep : Step 0 callback.predicate (callback.run 0)
        ⟨t, (id :: ahead ++ rest).head?, visited, [], none⟩
        ⟨t, (ahead ++ rest).head?, visited ++ [id], [], none⟩ := by
      refine ⟨rfl, ?_⟩
      have hmove := @Move.visit 0 callback.predicate (callback.run 0)
        ⟨t, (id :: ahead ++ rest).head?, visited, [], none⟩ id rfl
      rwa [after, hok] at hmove
    have hrest := ih (visited ++ [id]) (by simpa using hn)
      fun i hi => hquiet i (List.mem_cons_of_mem id hi)
    rw [List.append_assoc, List.singleton_append] at hrest
    exact .head hstep hrest

end Iteration

section Sound
variable {m : ConnectionMap} {callback : ForEachCallback} {threadPoolCapacity : Nat}

open Iteration

theorem runForEachConnection_sound (hm : m.Live)
    (hquiet : 0 < threadPoolCapacity ∨ ∀ id ∈ m.entries, callback.aborts id = false) :
    RunForEachConnectionSound threadPoolCapacity callback m := by
  intro resets t ht
  have hfine : Fine m callback.aborts t := by
    refine ht.invariant (Or.inl (inv_start hm resets)) ?_
    intro a b ha hab
    cases ha with
    | inl h => exact h.move hm.ordered hquiet hab.2
    | inr h =>
      obtain ⟨message, hfault, -⟩ := h.fault
      simp [hab.1] at hfault
  cases hfine with
  | inl h => exact h.safe
  | inr h => exact h.safe

/-- Without a thread pool the first abort ends the loop in a fault. -/
theorem runForEachConnection_not_sound (hm : m.Live) {id : Nat} (hid : id ∈ m.entries)
    (haborts : callback.aborts id = true) : ¬RunForEachConnectionSound 0 callback m := by
  intro hsound
  obtain ⟨first, hfirst⟩ : ∃ first, m.entries.find? callback.aborts = some first :=
    Option.isSome_iff_exists.mp (List.find?_isSome.mpr ⟨id, hid, haborts⟩)
  obtain ⟨hfirst, ahead, rest, hentries, hquiet⟩ := List.find?_eq_some_iff_append.mp hfirst
  have hmem : first ∈ m.entries := by simp [hentries]
  obtain ⟨c, hc, hreset, haborted⟩ := hm.connected first hmem
  have hquiet' : ∀ i ∈ ahead, callback.aborts i = false :=
    fun i hi => by simpa using hquiet i hi
  have hreach := reaches_quiet (n := { m with resets := [] }) hm.ordered
    (fun i hi => (hm.connected i hi).imp fun _ h => h.1) [] hentries.symm hquiet'
  rw [← hentries] at hreach
  have hsafe := hsound [] _ (hreach.tail ⟨rfl, .visit first rfl⟩)
  have hvisit := wp_visit_inPlace (n := { m with resets := [] }) hc hreset haborted hmem
    hm.nodup rfl hfirst
  exact not_safe_of_visit hvisit hsafe

/-- There is nothing to go over. -/
def Idle (t : Iteration) : Prop :=
  t.map.entries = [] ∧ t.current = none ∧ t.visited = [] ∧ t.aborting = [] ∧
    (t.fault = none ∨ t.fault = some (.logFatal "never reaches here"))

theorem destructor_sound (hentries : m.entries = []) : DestructorSound m := by
  intro resets t ht
  have hkept : Idle t := by
    refine ht.invariant ⟨hentries, by simp [start, hentries], rfl, rfl, Or.inl rfl⟩ ?_
    intro a b ha hab
    obtain ⟨hent, hcurrent, hvisited, haborting, -⟩ := ha
    cases hab.2 with
    | visit id hid => simp [hcurrent] at hid
    | keep _ hworkers => omega
    | beginAbort _ hworkers => omega
    | endAbort id hid => simp [haborting] at hid
    | closeEvent _ _ hworkers => omega
    | runCloseFunctor id =>
      apply wp_after
      rw [ConnectionMap.runCloseFunctor, wp_bind, wp_get, wp_ite, if_neg (by simp [hent])]
      exact ⟨hent, hcurrent, hvisited, haborting, Or.inr rfl⟩
  obtain ⟨-, hcurrent, hvisited, -, hfault⟩ := hkept
  refine ⟨fun id => by cases hfault with | inl h => simp [h] | inr h => simp [h],
    fun hn => absurd hcurrent hn, by simp [hvisited], fun _ => by rw [hvisited, hentries],
    by simp [hentries], by simp [hentries], by simp [hentries]⟩

/-- The first connection that is left over ends the loop in a fault. -/
theorem destructor_not_sound (hm : m.Live) (hentries : m.entries ≠ []) : ¬DestructorSound m := by
  intro hsound
  obtain ⟨id, rest, hcons⟩ := List.exists_cons_of_ne_nil hentries
  have hid : id ∈ m.entries := by simp [hcons]
  obtain ⟨c, hc, hreset, -⟩ := hm.connected id hid
  have hcurrent : (start { m with resets := [] }).current = some id := by simp [start, hcons]
  have hsafe := hsound [] _ (.single ⟨rfl, .visit id hcurrent⟩)
  have hvisit := wp_reset_inPlace (n := { m with resets := [] }) hc hreset hid hm.nodup rfl
  exact not_safe_of_visit hvisit hsafe

/-- A loop over the map goes well exactly when it does not erase the entry that it is at: where a
visit aborts nothing or a worker does it, and where the destructor has nothing left to do. -/
theorem map_iterations_sound_iff (hm : m.Live) :
    (RunForEachConnectionSound threadPoolCapacity callback m ↔
      0 < threadPoolCapacity ∨ ∀ id ∈ m.entries, callback.aborts id = false) ∧
    (DestructorSound m ↔ m.entries = []) := by
  refine ⟨⟨?_, runForEachConnection_sound hm⟩, ⟨?_, destructor_sound⟩⟩
  · intro hsound
    by_contra hn
    obtain ⟨hpool, hsome⟩ := not_or.mp hn
    obtain rfl : threadPoolCapacity = 0 := by omega
    obtain ⟨id, hid, haborts⟩ : ∃ id ∈ m.entries, callback.aborts id ≠ false := by
      simpa using hsome
    exact runForEachConnection_not_sound hm hid (by simpa using haborts) hsound
  · intro hsound
    by_contra hn
    exact destructor_not_sound hm hn hsound

/-- A server with one connection that has been quiet for too long. -/
def oneConnection : ConnectionMap where
  entries := [0]
  connections i := if i = 0 then some ⟨false, false, false, 0⟩ else none
  closes _ := 0
  checks := []
  closeFunctors := []
  resets := []

theorem oneConnection_live : oneConnection.Live where
  ordered := by decide
  connected id hid := by
    obtain rfl : id = 0 := by simpa [oneConnection] using hid
    exact ⟨_, rfl, rfl, rfl⟩
  opened _ _ := rfl
  unchecked := rfl

theorem map_iterations_sound_iff_oneConnection :
    (RunForEachConnectionSound 4 ⟨fun _ => true, fun _ => true⟩ oneConnection ↔
      0 < 4 ∨ ∀ id ∈ oneConnection.entries,
        ForEachCallback.aborts ⟨fun _ => true, fun _ => true⟩ id = false) ∧
    (DestructorSound oneConnection ↔ oneConnection.entries = []) :=
  map_iterations_sound_iff oneConnection_live

/-- Without a thread pool aborting the only connection breaks the loop, and so does leaving it to
the destructor. -/
theorem map_iterations_not_sound :
    oneConnection.Live ∧
      ¬RunForEachConnectionSound 0 ⟨fun _ => true, fun _ => true⟩ oneConnection ∧
      ¬DestructorSound oneConnection := by
  have hid : 0 ∈ oneConnection.entries := List.mem_cons_self
  exact ⟨oneConnection_live, runForEachConnection_not_sound oneConnection_live hid rfl,
    destructor_not_sound oneConnection_live (by decide)⟩

end Sound

end XubinhServer.TcpServer

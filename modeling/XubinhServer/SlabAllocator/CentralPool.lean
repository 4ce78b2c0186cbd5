import XubinhServer.SlabAllocator.ThreadLocal

/-! Where the slabs of the thread-local allocator are: live, on a free list, in a central chunk,
or in the chunk that a thread takes from the central pool or brings there. -/
namespace XubinhServer.StaticThreadLocalSlabAllocator

open Transition FreeList SlabAllocator

variable {ι : Type} [DecidableEq ι]

/-- Where a slab can be. A thread holds a chunk that it has taken from the central pool and not
mounted yet, or that it has cut off and not handed in yet. -/
inductive Place (ι : Type) where
  | live
  | free (t : ι)
  | held (t : ι)
  | central
  deriving DecidableEq

structure Lists (ι : Type) where
  free : ι → List Nat
  held : ι → List Nat
  central : List (List Nat)

def parts (s : State ι) (l : Lists ι) : Place ι → List Nat
  | .live => s.live
  | .free t => l.free t
  | .held t => l.held t
  | .central => l.central.flatten

structure IsChunk (next : Memory) (node : FreeChunkNode) (chunk : List Nat) : Prop where
  length : chunk.length = NUMBER_OF_SLABS_PER_CHUNK
  linked : Linked next node.chunkHead chunk none
  tail : node.chunkTail = chunk.getLast?

/-- What a thread holds in a phase. It looks at the central pool with an empty free list only. -/
def Phase.Holds (next : Memory) (free held : List Nat) : Phase → Prop
  | .idle => held = []
  | .mounting freeChunkNode => free = [] ∧
      if freeChunkNode.chunkHead = none then held = [] else IsChunk next freeChunkNode held
  | .handingIn newNode => IsChunk next newNode held

structure LocalPool.Good (next : Memory) (p : LocalPool) (free held : List Nat) : Prop where
  linked : Linked next p.linkedListOfFreeSlabs free none
  number : p.numberOfFreeSlabs = free.length +
    match p.phase with
    | .handingIn _ => NUMBER_OF_SLABS_PER_CHUNK
    | _ => 0
  threshold : NUMBER_OF_SLABS_PER_CHUNK ≤ p.cutOffThreshold
  holds : p.phase.Holds next free held

/-- The slabs of all allocated chunks are divided into the live ones, the free lists, the chunks
that threads hold, and the central chunks. -/
structure Divided (width : Nat) (s : State ι) (l : Lists ι) : Prop where
  divides : Divides (parts s l) (s.Allocated width)
  apart : ∀ a b, s.Allocated width a → s.Allocated width b → a ≠ b → Apart width a b
  central : List.Forall₂ (IsChunk s.next) s.freeChunks l.central
  threads : ∀ t, (s.threads t).Good s.next (l.free t) (l.held t)

section Frame

variable {next next' : Memory} {node : FreeChunkNode} {nodes : List FreeChunkNode}
  {chunk free held : List Nat} {chunks : List (List Nat)} {p : LocalPool}

theorem IsChunk.congr (h : IsChunk next node chunk) (hnext : ∀ a ∈ chunk, next' a = next a) :
    IsChunk next' node chunk := ⟨h.length, h.linked.congr hnext, h.tail⟩

theorem central_congr (h : List.Forall₂ (IsChunk next) nodes chunks)
    (hnext : ∀ a ∈ chunks.flatten, next' a = next a) :
    List.Forall₂ (IsChunk next') nodes chunks := by
  induction h with
  | nil => exact .nil
  | cons hchunk _ ih =>
    rw [List.flatten_cons] at hnext
    refine .cons (hchunk.congr fun a ha => ?_) (ih fun a ha => ?_)
    · exact hnext a (List.mem_append_left _ ha)
    · exact hnext a (List.mem_append_right _ ha)

theorem central_concat (h : List.Forall₂ (IsChunk next) (nodes ++ [node]) chunks) :
    ∃ init last, chunks = init ++ [last] ∧ List.Forall₂ (IsChunk next) nodes init ∧
      IsChunk next node last := by
  induction nodes generalizing chunks with
  | nil =>
    cases h with
    | cons hnode hnil =>
      cases hnil
      exact ⟨[], _, rfl, .nil, hnode⟩
  | cons first nodes ih =>
    cases h with
    | cons hfirst hrest =>
      obtain ⟨init, last, hchunks, hinit, hnode⟩ := ih hrest
      exact ⟨_ :: init, last, by rw [hchunks, List.cons_append], .cons hfirst hinit, hnode⟩

theorem IsChunk.chunkHead_ne (h : IsChunk next node chunk) : node.chunkHead ≠ none := by
  intro hnone
  have hlinked := h.linked
  have hlength := h.length
  rw [hnone] at hlinked
  rw [hlinked.eq_nil] at hlength
  exact absurd hlength NUMBER_OF_SLABS_PER_CHUNK_pos.ne

theorem Phase.Holds.congr {phase : Phase} (h : phase.Holds next free held)
    (hheld : ∀ a ∈ held, next' a = next a) : phase.Holds next' free held := by
  cases phase with
  | idle => exact h
  | mounting freeChunkNode =>
    obtain ⟨hfree, hhold⟩ := h
    refine ⟨hfree, ?_⟩
    by_cases hnode : freeChunkNode.chunkHead = none
    · rw [if_pos hnode] at hhold ⊢
      exact hhold
    · rw [if_neg hnode] at hhold ⊢
      exact IsChunk.congr hhold hheld
  | handingIn newNode => exact IsChunk.congr h hheld

theorem LocalPool.Good.congr (h : p.Good next free held)
    (hfree : ∀ a ∈ free, next' a = next a) (hheld : ∀ a ∈ held, next' a = next a) :
    p.Good next' free held :=
  { h with linked := h.linked.congr hfree, holds := h.holds.congr hheld }

end Frame

variable {width : Nat} {s s' : State ι} {l l' : Lists ι} {t : ι} {n slab newChunk : Nat}
  {free rest held : List Nat}

omit [DecidableEq ι] in
theorem allocated_congr (width : Nat)
    (h : ∀ u, (s'.threads u).allocatedChunks = (s.threads u).allocatedChunks) :
    s'.Allocated width = s.Allocated width := by
  funext slab
  simp only [State.Allocated, h]

@[simp] theorem threads_setThread (p : LocalPool) : (s.setThread t p).threads t = p := by
  simp [State.setThread]

theorem threads_setThread_ne (p : LocalPool) {u : ι} (hu : u ≠ t) :
    (s.setThread t p).threads u = s.threads u := by
  simp [State.setThread, Function.update_of_ne hu]

theorem allocatedChunks_setThread {p : LocalPool}
    (h : p.allocatedChunks = (s.threads t).allocatedChunks) (u : ι) :
    ((s.setThread t p).threads u).allocatedChunks = (s.threads u).allocatedChunks := by
  by_cases hu : u = t
  · subst hu
    rw [threads_setThread, h]
  · rw [threads_setThread_ne p hu]

theorem allocated_append (width : Nat) {p : LocalPool}
    (h : p.allocatedChunks = (s.threads t).allocatedChunks ++ [newChunk]) (a : Nat) :
    (s.setThread t p).Allocated width a ↔
      a ∈ slabs width newChunk NUMBER_OF_SLABS_PER_CHUNK ∨ s.Allocated width a := by
  constructor
  · intro hex
    obtain ⟨u, chunk, hchunk, ha⟩ := hex
    by_cases hu : u = t
    · subst hu
      rw [threads_setThread, h, List.mem_append, List.mem_singleton] at hchunk
      cases hchunk with
      | inl hold => exact .inr ⟨u, chunk, hold, ha⟩
      | inr heq => exact .inl (heq ▸ ha)
    · rw [threads_setThread_ne p hu] at hchunk
      exact .inr ⟨u, chunk, hchunk, ha⟩
  · intro hor
    cases hor with
    | inl ha => exact ⟨t, newChunk, by simp [h], ha⟩
    | inr hex =>
      obtain ⟨u, chunk, hchunk, ha⟩ := hex
      refine ⟨u, chunk, ?_, ha⟩
      by_cases hu : u = t
      · subst hu
        rw [threads_setThread, h]
        exact List.mem_append_left _ hchunk
      · rw [threads_setThread_ne p hu]
        exact hchunk

section Places

variable {k : Place ι}

/-- A thread moves slabs between its free list and their owners. -/
theorem parts_live_free (hlive : k ≠ .live) (hfree : k ≠ .free t) (free : List Nat) :
    parts s' { l with free := Function.update l.free t free } k = parts s l k := by
  cases k with
  | live => exact absurd rfl hlive
  | free u =>
    have hu : u ≠ t := fun heq => hfree (heq ▸ rfl)
    simp [parts, Function.update_of_ne hu]
  | held u => rfl
  | central => rfl

omit [DecidableEq ι] in
/-- A thread moves a chunk between its free list and its hands. -/
theorem parts_free_held (hlive : s'.live = s.live) (hcentral : l'.central = l.central)
    (hothers : ∀ u, u ≠ t → l'.free u = l.free u ∧ l'.held u = l.held u) (hfree : k ≠ .free t)
    (hheld : k ≠ .held t) : parts s' l' k = parts s l k := by
  cases k with
  | live => exact hlive
  | free u => exact (hothers u fun heq => hfree (heq ▸ rfl)).1
  | held u => exact (hothers u fun heq => hheld (heq ▸ rfl)).2
  | central => exact congrArg List.flatten hcentral

/-- A thread moves a chunk between its hands and the central pool. -/
theorem parts_held_central (hlive : s'.live = s.live) (hheld : k ≠ .held t)
    (hcentral : k ≠ .central) (held : List Nat) (central : List (List Nat)) :
    parts s' { l with
      held := Function.update l.held t held
      central := central } k = parts s l k := by
  cases k with
  | live => exact hlive
  | free u => rfl
  | held u =>
    have hu : u ≠ t := fun heq => hheld (heq ▸ rfl)
    simp [parts, Function.update_of_ne hu]
  | central => exact absurd rfl hcentral

end Places

omit [DecidableEq ι] in
theorem State.Fresh.apart (h : s.Fresh width newChunk) :
    ∀ a ∈ slabs width newChunk NUMBER_OF_SLABS_PER_CHUNK,
      ∀ b, s.Allocated width b → Apart width a b := by
  intro a ha b hb
  obtain ⟨u, chunk, hchunk, hb⟩ := hb
  have hafter := mem_slabs_bounds ha
  have hbefore := mem_slabs_bounds hb
  cases h u chunk hchunk with
  | inl hle => exact .inr (by omega)
  | inr hle => exact .inl (by omega)

namespace Divided

/-- A step of the thread `t` that changes nothing of the slabs of the other threads. -/
theorem of_thread (h : Divided width s l) (t : ι)
    (hchunks : ∀ u, (s'.threads u).allocatedChunks = (s.threads u).allocatedChunks)
    (hdivides : Divides (parts s' l') (s.Allocated width))
    (hcentral : List.Forall₂ (IsChunk s'.next) s'.freeChunks l'.central)
    (hthread : (s'.threads t).Good s'.next (l'.free t) (l'.held t))
    (hothers : ∀ u, u ≠ t →
      s'.threads u = s.threads u ∧ l'.free u = l.free u ∧ l'.held u = l.held u)
    (hfree : ∀ u, u ≠ t → ∀ a ∈ l.free u, s'.next a = s.next a)
    (hheld : ∀ u, u ≠ t → ∀ a ∈ l.held u, s'.next a = s.next a) : Divided width s' l' := by
  have hall := allocated_congr width hchunks
  refine ⟨hall ▸ hdivides, hall ▸ h.apart, hcentral, fun u => ?_⟩
  by_cases hu : u = t
  · subst hu
    exact hthread
  · obtain ⟨hthreads, hfree', hheld'⟩ := hothers u hu
    rw [hthreads, hfree', hheld']
    exact (h.threads u).congr (hfree u hu) (hheld u hu)

theorem take (h : Divided width s l) (ht : (s.threads t).phase = .idle)
    (hnumber : (s.threads t).numberOfFreeSlabs ≠ 0) :
    ∃ a rest, l.free t = a :: rest ∧
      s.take t = { s.setThread t { s.threads t with
        linkedListOfFreeSlabs := s.next a
        numberOfFreeSlabs := (s.threads t).numberOfFreeSlabs - 1 } with live := a :: s.live } ∧
      Divided width (s.take t) { l with free := Function.update l.free t rest } := by
  have hgood := h.threads t
  have hlength := hgood.number
  rw [ht] at hlength
  have hlinked := hgood.linked
  cases hfree : l.free t with
  | nil =>
    rw [hfree] at hlength
    exact absurd hlength hnumber
  | cons a rest =>
    rw [hfree] at hlength hlinked
    obtain ⟨hhead, hrest⟩ := hlinked
    have htake : s.take t = { s.setThread t { s.threads t with
        linkedListOfFreeSlabs := s.next a
        numberOfFreeSlabs := (s.threads t).numberOfFreeSlabs - 1 } with
        live := a :: s.live } := by
      simp [State.take, LocalPool.takeSlab, hhead, pure, Except.pure]
    have hholds := hgood.holds
    rw [ht] at hholds
    refine ⟨a, rest, rfl, htake, ?_⟩
    rw [htake]
    refine h.of_thread t (allocatedChunks_setThread rfl) ?_ h.central ?_ ?_
      (fun u hu a _ => rfl) (fun u hu a _ => rfl)
    · refine h.divides.moved (i := .free t) (j := .live) (m := [a]) (r := rest) nofun ?_ ?_ ?_ ?_
      · simp [parts, hfree]
      · simp [parts]
      · simp [parts]
      · exact fun k hfree hlive => parts_live_free hlive hfree rest
    · simp only [Function.update_self, State.setThread]
      constructor
      · exact hrest
      · simp [ht, hlength]
      · exact hgood.threshold
      · simpa [ht, Phase.Holds] using hholds
    · intro u hu
      exact ⟨threads_setThread_ne _ hu, Function.update_of_ne hu _ _, rfl⟩

omit [DecidableEq ι] in
theorem write (h : Divided width s l) (hslab : slab ∈ s.live) (value : Option Nat) :
    Divided width { s with next := Function.update s.next slab value } l := by
  have hne : ∀ k : Place ι, .live ≠ k → ∀ a ∈ parts s l k,
      Function.update s.next slab value a = s.next a :=
    h.divides.update_eq (j := .live) hslab s.next _
  refine ⟨h.divides, h.apart, central_congr h.central (hne .central nofun), fun t => ?_⟩
  exact (h.threads t).congr (hne (.free t) nofun) (hne (.held t) nofun)

theorem look (h : Divided width s l) (ht : (s.threads t).phase = .idle)
    (hnumber : (s.threads t).numberOfFreeSlabs = 0) :
    ∃ l', (s.look t).fault = s.fault ∧ Divided width (s.look t) l' := by
  have hgood := h.threads t
  have hholds := hgood.holds
  have hlength := hgood.number
  rw [ht] at hlength hholds
  rw [hnumber] at hlength
  have hfree : l.free t = [] := List.length_eq_zero_iff.mp hlength.symm
  have hheld : l.held t = [] := hholds
  cases hlast : s.freeChunks.getLast? with
  | none =>
    have hlook : s.look t =
        s.setThread t { s.threads t with phase := .mounting ⟨none, none⟩ } := by
      simp [State.look, hlast]
    rw [hlook]
    refine ⟨l, rfl, h.of_thread t (allocatedChunks_setThread rfl) h.divides h.central ?_ ?_
      (fun u hu a _ => rfl) (fun u hu a _ => rfl)⟩
    · rw [threads_setThread]
      exact ⟨hgood.linked, by simp [hnumber, hfree], hgood.threshold, ⟨hfree, hheld⟩⟩
    · intro u hu
      exact ⟨threads_setThread_ne _ hu, rfl, rfl⟩
  | some node =>
    obtain ⟨nodes, hnodes⟩ := List.getLast?_eq_some_iff.mp hlast
    have hcentral := h.central
    rw [hnodes] at hcentral
    obtain ⟨chunks, last, hchunks, hinit, hnode⟩ := central_concat hcentral
    have hlook : s.look t =
        { s.setThread t { s.threads t with phase := .mounting node } with
          freeChunks := nodes } := by
      simp [State.look, hnodes]
    rw [hlook]
    refine ⟨{ l with held := Function.update l.held t last, central := chunks }, rfl,
      h.of_thread t (allocatedChunks_setThread rfl) ?_ hinit ?_ ?_ (fun u hu a _ => rfl)
      (fun u hu a _ => rfl)⟩
    · refine h.divides.moved (i := .central) (j := .held t) (m := last) (r := chunks.flatten)
        nofun ?_ ?_ ?_ ?_
      · simp [parts, hchunks, List.perm_append_comm]
      · simp [parts]
      · simp [parts, hheld]
      · exact fun k hcentral hheld => parts_held_central rfl hheld hcentral last chunks
    · simp only [Function.update_self, State.setThread]
      refine ⟨hgood.linked, by simp [hnumber, hfree], hgood.threshold, hfree, ?_⟩
      rw [if_neg hnode.chunkHead_ne]
      exact hnode
    · intro u hu
      exact ⟨threads_setThread_ne _ hu, rfl, Function.update_of_ne hu _ _⟩

theorem handIn {newNode : FreeChunkNode} (h : Divided width s l)
    (ht : (s.threads t).phase = .handingIn newNode) :
    ∃ l', Divided width (s.handIn t newNode) l' := by
  have hgood := h.threads t
  have hnode := hgood.holds
  have hlength := hgood.number
  rw [ht] at hlength hnode
  refine ⟨{ l with
    held := Function.update l.held t []
    central := l.central ++ [l.held t] }, ?_⟩
  refine h.of_thread t (allocatedChunks_setThread rfl) ?_ ?_ ?_ ?_ (fun u hu a _ => rfl)
    (fun u hu a _ => rfl)
  · refine h.divides.moved (i := .held t) (j := .central) (m := l.held t) (r := []) nofun
      ?_ ?_ ?_ ?_
    · simp [parts]
    · simp [parts]
    · simp [parts, List.perm_append_comm]
    · exact fun k hheld hcentral => parts_held_central rfl hheld hcentral _ _
  · exact List.rel_append h.central (.cons hnode .nil)
  · simp only [Function.update_self, State.handIn, State.setThread]
    exact ⟨hgood.linked, by simp [hlength], hgood.threshold, rfl⟩
  · intro u hu
    exact ⟨threads_setThread_ne _ hu, rfl, Function.update_of_ne hu _ _⟩

theorem mountChunk {node : FreeChunkNode} (h : Divided width s l)
    (ht : (s.threads t).phase = .mounting node) (hhead : node.chunkHead ≠ none) :
    ∃ p next l', (s.threads t).mount width newChunk node s.next = .ok (p, next) ∧
      p.phase = .idle ∧ p.numberOfFreeSlabs = NUMBER_OF_SLABS_PER_CHUNK ∧
      Divided width { s.setThread t p with next := next } l' := by
  have hgood := h.threads t
  have hholds := hgood.holds
  have hnumber := hgood.number
  rw [ht] at hholds hnumber
  obtain ⟨hfree, hchunk⟩ := hholds
  rw [if_neg hhead] at hchunk
  have hlist : (s.threads t).linkedListOfFreeSlabs = none := by
    have hlinked := hgood.linked
    rw [hfree] at hlinked
    exact hlinked
  rw [hfree] at hnumber
  -- the tail of the chunk is its last slab, and comes to lead to the empty free list
  obtain ⟨tail, hlast⟩ : ∃ tail, (l.held t).getLast? = some tail := by
    cases hlast : (l.held t).getLast? with
    | none =>
      have hlength := hchunk.length
      rw [List.getLast?_eq_none_iff.mp hlast] at hlength
      exact absurd hlength NUMBER_OF_SLABS_PER_CHUNK_pos.ne
    | some tail => exact ⟨tail, rfl⟩
  obtain ⟨init, hinit⟩ := List.getLast?_eq_some_iff.mp hlast
  have hnodup : (init ++ [tail]).Nodup := hinit ▸ h.divides.nodup (.held t)
  have htail : tail ∉ init := by
    intro hmem
    exact (List.nodup_append.mp hnodup).2.2 tail hmem tail (List.mem_singleton_self tail) rfl
  have hheld : tail ∈ l.held t := by simp [hinit]
  obtain ⟨head, hsome⟩ := Option.ne_none_iff_exists'.mp hhead
  refine ⟨{ s.threads t with
      linkedListOfFreeSlabs := some head
      numberOfFreeSlabs := (s.threads t).numberOfFreeSlabs + NUMBER_OF_SLABS_PER_CHUNK
      phase := .idle }, Function.update s.next tail none,
    { l with
      free := Function.update l.free t (l.held t)
      held := Function.update l.held t [] }, ?_, rfl, by simp [hnumber], ?_⟩
  · simp [LocalPool.mount, hsome, hchunk.tail, hlast, hlist, writeNext, bind, Except.bind, pure,
      Except.pure]
  have hne : ∀ k : Place ι, .held t ≠ k → ∀ a ∈ parts s l k,
      Function.update s.next tail none a = s.next a :=
    h.divides.update_eq (j := .held t) hheld s.next _
  refine h.of_thread t (allocatedChunks_setThread rfl) ?_
    (central_congr h.central (hne .central nofun)) ?_ ?_
    (fun u hu => hne (.free u) nofun)
    (fun u hu => hne (.held u) fun heq => hu (Place.held.inj heq).symm)
  · refine h.divides.moved (i := .held t) (j := .free t) (m := l.held t) (r := []) nofun ?_ ?_ ?_ ?_
    · simp [parts]
    · simp [parts]
    · simp [parts, hfree]
    · refine fun k hheld' hfree' => parts_free_held rfl rfl (fun u hu => ?_) hfree' hheld'
      exact ⟨Function.update_of_ne hu _ _, Function.update_of_ne hu _ _⟩
  · simp only [Function.update_self, State.setThread]
    refine ⟨?_, by simp [hnumber, hchunk.length], hgood.threshold, rfl⟩
    have hlinked := hchunk.linked
    rw [hsome, hinit] at hlinked
    rw [hinit]
    exact hlinked.setLast htail none
  · intro u hu
    exact ⟨threads_setThread_ne _ hu, Function.update_of_ne hu _ _, Function.update_of_ne hu _ _⟩

/-- `allocate` gets a new chunk. The free list is empty then. -/
theorem mountNew {node : FreeChunkNode} (hwidth : 0 < width) (h : Divided width s l)
    (ht : (s.threads t).phase = .mounting node) (hhead : node.chunkHead = none)
    (hfresh : s.Fresh width newChunk) :
    ∃ p next l', (s.threads t).mount width newChunk node s.next = .ok (p, next) ∧
      p.phase = .idle ∧ p.numberOfFreeSlabs = NUMBER_OF_SLABS_PER_CHUNK ∧
      Divided width { s.setThread t p with next := next } l' := by
  have hgood := h.threads t
  have hholds := hgood.holds
  have hnumber := hgood.number
  have hlinked := hgood.linked
  rw [ht] at hholds hnumber
  obtain ⟨hfree, hheld⟩ := hholds
  rw [if_pos hhead] at hheld
  rw [hfree] at hnumber hlinked
  have hapart := hfresh.apart
  have hnew : ∀ a ∈ slabs width newChunk NUMBER_OF_SLABS_PER_CHUNK, ¬s.Allocated width a :=
    fun a ha hall => (hapart a ha a hall).ne hwidth rfl
  have hne : ∀ k : Place ι, ∀ a ∈ parts s l k,
      (carve width NUMBER_OF_SLABS_PER_CHUNK newChunk none s.next).2 a = s.next a := by
    intro k a ha
    refine carve_snd fun hmem => ?_
    exact hnew a hmem ((h.divides.mem a).mpr ⟨k, ha⟩)
  have hchunk := Linked.carve (l := []) hwidth hlinked
    fun a (_ : a ∈ slabs width newChunk NUMBER_OF_SLABS_PER_CHUNK) => List.not_mem_nil
  have hlist : (s.threads t).linkedListOfFreeSlabs = none := hlinked
  rw [List.append_nil, hlist] at hchunk
  let p : LocalPool := { s.threads t with
    linkedListOfFreeSlabs := (carve width NUMBER_OF_SLABS_PER_CHUNK newChunk none s.next).1
    numberOfFreeSlabs := (s.threads t).numberOfFreeSlabs + NUMBER_OF_SLABS_PER_CHUNK
    allocatedChunks := (s.threads t).allocatedChunks ++ [newChunk]
    cutOffThreshold := (s.threads t).cutOffThreshold + NUMBER_OF_SLABS_PER_CHUNK
    phase := .idle }
  let next := (carve width NUMBER_OF_SLABS_PER_CHUNK newChunk none s.next).2
  have hall := allocated_append (s := s) (p := p) width rfl
  refine ⟨p, next, { l with
    free := Function.update l.free t (slabs width newChunk NUMBER_OF_SLABS_PER_CHUNK).reverse },
    ?_, rfl, by simp [p, hnumber], ?_⟩
  · simp [LocalPool.mount, hhead, hlist, LocalPool.allocateOneChunk, bind, Except.bind, pure,
      Except.pure, p, next]
  refine ⟨?_, ?_, central_congr h.central (hne .central), fun u => ?_⟩
  · refine h.divides.grown (j := .free t) (nodup_slabs hwidth) hnew hall ?_ ?_
    · simp [parts, hfree, List.reverse_perm]
    · intro k hk
      cases k with
      | live => rfl
      | free u =>
        have hu : u ≠ t := fun heq => hk (heq ▸ rfl)
        simp [parts, Function.update_of_ne hu]
      | held u => rfl
      | central => rfl
  · exact apart_of_grown hall hapart h.apart
  · by_cases hu : u = t
    · subst hu
      simp only [Function.update_self, State.setThread]
      have hthreshold := hgood.threshold
      exact ⟨hchunk, by simp [p, hnumber], by simp only [p]; omega, hheld⟩
    · simp only [State.setThread, Function.update_of_ne hu]
      exact (h.threads u).congr (hne (.free u)) (hne (.held u))

/-- The walk of `deallocate` finds the last slab of a chunk. -/
theorem chunk_at_front {next : Memory} (h : Linked next (some slab) free none)
    (hlength : NUMBER_OF_SLABS_PER_CHUNK ≤ free.length) :
    ∃ init tail rest, free = init ++ [tail] ++ rest ∧
      (init ++ [tail]).length = NUMBER_OF_SLABS_PER_CHUNK ∧
      walk next (NUMBER_OF_SLABS_PER_CHUNK - 1) slab = some tail := by
  have hpos := NUMBER_OF_SLABS_PER_CHUNK_pos
  have hlt : NUMBER_OF_SLABS_PER_CHUNK - 1 < free.length := by omega
  refine ⟨free.take (NUMBER_OF_SLABS_PER_CHUNK - 1), free[NUMBER_OF_SLABS_PER_CHUNK - 1],
    free.drop NUMBER_OF_SLABS_PER_CHUNK, ?_, ?_, h.walk_eq hlt⟩
  · rw [List.take_append_getElem hlt, Nat.sub_add_cancel hpos, List.take_append_drop]
  · rw [List.length_append, List.length_take, List.length_singleton]
    omega

theorem cutOff_eq {p : LocalPool} {next : Memory} {tail : Nat}
    (hhead : p.linkedListOfFreeSlabs = some slab)
    (hwalk : walk next (NUMBER_OF_SLABS_PER_CHUNK - 1) slab = some tail) :
    p.cutOff next = .ok ({ p with
      linkedListOfFreeSlabs := next tail
      phase := .handingIn ⟨some slab, some tail⟩ }, Function.update next tail none) := by
  rw [LocalPool.cutOff, hhead, Option.bind_some, hwalk]
  rfl

omit [DecidableEq ι] in
theorem ne_of_live (h : Divided width s l) (hslab : slab ∈ s.live) (k : Place ι)
    (hk : .live ≠ k) : ∀ a ∈ parts s l k, a ≠ slab := by
  intro a ha heq
  subst heq
  exact h.divides.not_mem (j := .live) hslab hk ha

/-- The slab goes from its user to the free list of the thread. -/
theorem freed (h : Divided width s l) (hslab : slab ∈ s.live) :
    Divides
      (parts { s with live := s.live.erase slab }
        { l with free := Function.update l.free t (slab :: l.free t) })
      (s.Allocated width) := by
  refine h.divides.moved (i := .live) (j := .free t) (m := [slab]) (r := s.live.erase slab)
    nofun ?_ ?_ ?_ ?_
  · exact List.perm_cons_erase hslab
  · simp [parts]
  · simp [parts]
  · exact fun k hlive hfree => parts_live_free hlive hfree _

/-- `deallocate` below the threshold. -/
theorem deallocate_keep (h : Divided width s l) (ht : (s.threads t).phase = .idle)
    (hslab : slab ∈ s.live)
    (hkeep : ¬(s.threads t).numberOfFreeSlabs + 1 ≥ (s.threads t).cutOffThreshold) :
    ∃ l', (s.deallocate t slab 1).fault = s.fault ∧
      Divided width (s.deallocate t slab 1) l' := by
  have hgood := h.threads t
  have hholds := hgood.holds
  have hnumber := hgood.number
  rw [ht] at hholds hnumber
  have hheld : l.held t = [] := hholds
  have hfree : slab ∉ l.free t := h.divides.not_mem (j := .live) (k := .free t) hslab nofun
  have hne := h.ne_of_live hslab
  have hdeallocate : s.deallocate t slab 1 = { s.setThread t { s.threads t with
      linkedListOfFreeSlabs := some slab
      numberOfFreeSlabs := (s.threads t).numberOfFreeSlabs + 1 } with
      next := Function.update s.next slab (s.threads t).linkedListOfFreeSlabs
      live := s.live.erase slab } := by
    simp [State.deallocate, LocalPool.deallocate, hkeep, pure, Except.pure]
  rw [hdeallocate]
  refine ⟨{ l with free := Function.update l.free t (slab :: l.free t) }, rfl,
    h.of_thread t (allocatedChunks_setThread rfl) (h.freed hslab) ?_ ?_ ?_ ?_ ?_⟩
  · exact central_congr h.central fun a ha =>
      Function.update_of_ne (hne .central nofun a ha) _ _
  · simp only [Function.update_self, State.setThread]
    refine ⟨hgood.linked.push hfree, by simp [ht, hnumber], hgood.threshold, ?_⟩
    simpa [ht, Phase.Holds] using hheld
  · intro u hu
    exact ⟨threads_setThread_ne _ hu, Function.update_of_ne hu _ _, rfl⟩
  · exact fun u hu a ha => Function.update_of_ne (hne (.free u) nofun a ha) _ _
  · exact fun u hu a ha => Function.update_of_ne (hne (.held u) nofun a ha) _ _

/-- `deallocate` at the threshold: the first slabs of the free list become a free chunk. -/
theorem deallocate_cutOff (h : Divided width s l) (ht : (s.threads t).phase = .idle)
    (hslab : slab ∈ s.live)
    (hcut : (s.threads t).numberOfFreeSlabs + 1 ≥ (s.threads t).cutOffThreshold) :
    ∃ l', (s.deallocate t slab 1).fault = s.fault ∧
      Divided width (s.deallocate t slab 1) l' := by
  have hgood := h.threads t
  have hholds := hgood.holds
  have hnumber := hgood.number
  have hthreshold := hgood.threshold
  rw [ht] at hholds hnumber
  have hheld : l.held t = [] := hholds
  have hfree : slab ∉ l.free t := h.divides.not_mem (j := .live) (k := .free t) hslab nofun
  have hlinked := hgood.linked.push hfree
  have hmounted := h.freed (t := t) hslab
  have hpos := NUMBER_OF_SLABS_PER_CHUNK_pos
  obtain ⟨init, tail, rest, hsplit, hinit, hwalk⟩ := chunk_at_front hlinked
    (by simp at hnumber ⊢; omega)
  have hcutOff := cutOff_eq (p := { s.threads t with
    linkedListOfFreeSlabs := some slab
    numberOfFreeSlabs := (s.threads t).numberOfFreeSlabs + 1 }) rfl hwalk
  have hdeallocate : s.deallocate t slab 1 = { s.setThread t { s.threads t with
      linkedListOfFreeSlabs :=
        Function.update s.next slab (s.threads t).linkedListOfFreeSlabs tail
      numberOfFreeSlabs := (s.threads t).numberOfFreeSlabs + 1
      phase := .handingIn ⟨some slab, some tail⟩ } with
      next := Function.update
        (Function.update s.next slab (s.threads t).linkedListOfFreeSlabs) tail none
      live := s.live.erase slab } := by
    simp [State.deallocate, LocalPool.deallocate, hcut, hcutOff]
  have hnodup := hmounted.nodup (.free t)
  simp only [parts, Function.update_self] at hnodup
  have htail : tail ∈ slab :: l.free t := by simp [hsplit]
  have hsame : ∀ k : Place ι, .live ≠ k → .free t ≠ k → ∀ a ∈ parts s l k,
      Function.update (Function.update s.next slab (s.threads t).linkedListOfFreeSlabs)
        tail none a = s.next a := by
    intro k hk hk' a ha
    have hne := h.ne_of_live hslab k hk a ha
    have htail' : a ≠ tail := by
      intro heq
      subst heq
      cases List.mem_cons.mp htail with
      | inl heq => exact hne heq
      | inr hmem => exact h.divides.not_mem (j := .free t) hmem hk' ha
    rw [Function.update_of_ne htail', Function.update_of_ne hne]
  have hlength : (slab :: l.free t).length = (init ++ [tail]).length + rest.length := by
    rw [hsplit, List.length_append]
  rw [hsplit] at hlinked hnodup
  obtain ⟨hchunk, hrest⟩ := hlinked.cut hnodup
  rw [hdeallocate]
  refine ⟨{ l with
    free := Function.update l.free t rest
    held := Function.update l.held t (init ++ [tail]) }, rfl,
    h.of_thread t (allocatedChunks_setThread rfl) ?_ ?_ ?_ ?_ ?_ ?_⟩
  · refine hmounted.moved (i := .free t) (j := .held t) (m := init ++ [tail]) (r := rest)
      nofun ?_ ?_ ?_ ?_
    · simp [parts, hsplit]
    · simp [parts]
    · simp [parts, hheld]
    · refine fun k hfree' hheld' => parts_free_held rfl rfl (fun u hu => ?_) hfree' hheld'
      simp [Function.update_of_ne hu]
  · exact central_congr h.central (hsame .central nofun nofun)
  · simp only [Function.update_self, State.setThread]
    refine ⟨hrest, ?_, hthreshold, hinit, hchunk, by simp⟩
    simp only [List.length_cons] at hlength hnumber ⊢
    omega
  · intro u hu
    exact ⟨threads_setThread_ne _ hu, Function.update_of_ne hu _ _,
      Function.update_of_ne hu _ _⟩
  · exact fun u hu => hsame (.free u) nofun fun heq => hu (Place.free.inj heq).symm
  · exact fun u hu => hsame (.held u) nofun nofun

theorem deallocate (h : Divided width s l) (ht : (s.threads t).phase = .idle)
    (hslab : slab ∈ s.live) :
    ∃ l', (s.deallocate t slab 1).fault = s.fault ∧
      Divided width (s.deallocate t slab 1) l' := by
  by_cases hcut : (s.threads t).numberOfFreeSlabs + 1 ≥ (s.threads t).cutOffThreshold
  · exact h.deallocate_cutOff ht hslab hcut
  · exact h.deallocate_keep ht hslab hcut

/-- The slab that a mounting thread takes ends its `allocate`. -/
theorem mount (hwidth : 0 < width) (h : Divided width s l) {node : FreeChunkNode}
    (ht : (s.threads t).phase = .mounting node) (hfresh : s.Fresh width newChunk) :
    ∃ p a l', p.phase = .idle ∧ p.numberOfFreeSlabs + 1 = NUMBER_OF_SLABS_PER_CHUNK ∧
      (s.mount width t node newChunk).fault = s.fault ∧
      (s.mount width t node newChunk).live = a :: s.live ∧
      (s.mount width t node newChunk).threads = Function.update s.threads t p ∧
      Divided width (s.mount width t node newChunk) l' := by
  obtain ⟨p, next, l', hmount, hphase, hnumber, hdivided⟩ :
      ∃ p next l', (s.threads t).mount width newChunk node s.next = .ok (p, next) ∧
        p.phase = .idle ∧ p.numberOfFreeSlabs = NUMBER_OF_SLABS_PER_CHUNK ∧
        Divided width { s.setThread t p with next := next } l' := by
    by_cases hhead : node.chunkHead = none
    · exact h.mountNew hwidth ht hhead hfresh
    · exact h.mountChunk ht hhead
  have hthread : ({ s.setThread t p with next := next } : State ι).threads t = p :=
    threads_setThread p
  have hpos := NUMBER_OF_SLABS_PER_CHUNK_pos
  obtain ⟨a, rest, _, htake, htaken⟩ := hdivided.take (t := t)
    (by rw [hthread, hphase]) (by rw [hthread, hnumber]; exact hpos.ne')
  have hmount' : s.mount width t node newChunk =
      { s.setThread t p with next := next }.take t := by
    rw [State.mount, hmount]
  rw [← hmount'] at htake htaken
  simp only at htake
  refine ⟨{ p with
      linkedListOfFreeSlabs := next a
      numberOfFreeSlabs := p.numberOfFreeSlabs - 1 }, a, _, hphase, ?_, ?_, ?_, ?_, htaken⟩
  · simp only [hnumber]
    omega
  · rw [htake]
    rfl
  · rw [htake]
    rfl
  · rw [htake]
    simp [State.setThread]

end Divided

/-- The counter of a thread. A chunk on its way to the central pool still counts. -/
def LocalPool.Below (p : LocalPool) : Prop :=
  match p.phase with
  | .handingIn _ => p.numberOfFreeSlabs ≤ p.cutOffThreshold
  | _ => p.numberOfFreeSlabs < p.cutOffThreshold

theorem LocalPool.Below.deallocate {p q : LocalPool} {next next' : Memory} (h : p.Below)
    (hp : p.phase = .idle) (hok : p.deallocate slab n next = .ok (q, next')) : q.Below := by
  simp only [LocalPool.Below, hp] at h
  simp only [LocalPool.deallocate] at hok
  by_cases hn : n = 1
  · by_cases hcut : p.numberOfFreeSlabs + 1 ≥ p.cutOffThreshold
    · simp only [hn, ne_eq, not_true, if_false, hcut, if_true, LocalPool.cutOff, bind, Except.bind,
        pure, Except.pure] at hok
      split at hok
      · cases hok
      · cases hok
        simp only [LocalPool.Below]
        omega
    · simp [hn, hcut, pure, Except.pure] at hok
      obtain ⟨rfl, _⟩ := hok
      simp only [LocalPool.Below, hp]
      omega
  · simp [hn, throw, throwThe, MonadExceptOf.throw, bind, Except.bind] at hok

/-- What holds between the steps. -/
structure Sound (width : Nat) (s : State ι) : Prop where
  fault : s.fault = none
  divided : ∃ l, Divided width s l
  below : ∀ t, (s.threads t).Below

theorem below_update {p : LocalPool} (h : ∀ u, (s.threads u).Below) (hp : p.Below)
    (hthreads : s'.threads = Function.update s.threads t p) (u : ι) : (s'.threads u).Below := by
  rw [hthreads]
  by_cases hu : u = t
  · subst hu
    rw [Function.update_self]
    exact hp
  · rw [Function.update_of_ne hu]
    exact h u

theorem threads_look (s : State ι) (t : ι) : ∃ node, (s.look t).threads =
    Function.update s.threads t { s.threads t with phase := .mounting node } := by
  rw [State.look]
  split
  · exact ⟨_, rfl⟩
  · exact ⟨_, rfl⟩

omit [DecidableEq ι] in
theorem sound_initial : Sound width (State.initial : State ι) where
  fault := rfl
  divided := by
    refine ⟨⟨fun _ => [], fun _ => [], []⟩, ⟨?_, ?_, ?_⟩, ?_, .nil, fun t => ?_⟩
    · intro k
      cases k <;> exact List.nodup_nil
    · intro j k a ha
      cases j <;> cases ha
    · intro a
      constructor
      · intro hex
        obtain ⟨t, chunk, hchunk, _⟩ := hex
        cases hchunk
      · intro hex
        obtain ⟨k, hk⟩ := hex
        cases k <;> cases hk
    · intro a b ha
      obtain ⟨t, chunk, hchunk, _⟩ := ha
      cases hchunk
    · exact ⟨rfl, rfl, le_refl _, rfl⟩
  below t := NUMBER_OF_SLABS_PER_CHUNK_pos

theorem Sound.step (hwidth : 0 < width) (h : Sound width s) (hstep : Step width s s') :
    Sound width s' := by
  obtain ⟨l, hl⟩ := h.divided
  cases hstep with
  | allocate t n hs ht hok =>
    have hbelow := h.below t
    simp only [LocalPool.Below, ht] at hbelow
    simp only [State.allocate] at hok
    split at hok
    · cases hok
    · split at hok
      · rename_i hnumber
        cases hok
        obtain ⟨l', hfault, hdivided⟩ := hl.look ht hnumber
        obtain ⟨node, hthreads⟩ := threads_look s t
        have hlooking : LocalPool.Below { s.threads t with phase := .mounting node } := hbelow
        exact ⟨hfault.trans hs, ⟨l', hdivided⟩, below_update h.below hlooking hthreads⟩
      · rename_i hnumber
        cases hok
        obtain ⟨a, rest, _, htake, hdivided⟩ := hl.take ht hnumber
        refine ⟨by rw [htake]; exact hs, ⟨_, hdivided⟩, below_update (t := t) h.below ?_
          (by rw [htake]; rfl)⟩
        simp only [LocalPool.Below, ht]
        omega
  | mount t node newChunk hs ht hnew =>
    obtain ⟨p, a, l', hphase, hnumber, hfault, _, hthreads, hdivided⟩ := hl.mount hwidth ht hnew
    refine ⟨hfault.trans hs, ⟨l', hdivided⟩, below_update h.below ?_ hthreads⟩
    have hthreshold := (hdivided.threads t).threshold
    rw [hthreads, Function.update_self] at hthreshold
    simp only [LocalPool.Below, hphase]
    omega
  | deallocate t slab hs ht hslab =>
    obtain ⟨l', hfault, hdivided⟩ := hl.deallocate ht hslab
    refine ⟨hfault.trans hs, ⟨l', hdivided⟩, ?_⟩
    rw [State.deallocate]
    split
    · exact h.below
    · rename_i p next hok
      exact below_update h.below ((h.below t).deallocate ht hok) rfl
  | handIn t newNode hs ht =>
    obtain ⟨l', hdivided⟩ := hl.handIn ht
    refine ⟨hs, ⟨l', hdivided⟩, below_update (t := t) h.below ?_ rfl⟩
    have hbelow := h.below t
    have hpos := NUMBER_OF_SLABS_PER_CHUNK_pos
    have hthreshold := (hl.threads t).threshold
    simp only [LocalPool.Below, ht] at hbelow ⊢
    omega
  | write slab value hs hslab => exact ⟨hs, ⟨l, hl.write hslab value⟩, h.below⟩

theorem Sound.of_reaches (hwidth : 0 < width) (h : Reaches (Step width) State.initial s) :
    Sound width s :=
  h.invariant sound_initial fun _ _ hsound hstep => hsound.step hwidth hstep

/-- The slabs of all chunks are divided into the live ones, the threads' free lists, the central
chunks, and the chunks that unfinished operations have taken from a list or from the central pool.
The counters are right and below the thresholds, no walk meets a null pointer, and no live slab is
returned again. -/
theorem slabs_divided (hwidth : 0 < width) (h : Reaches (Step width) State.initial s) :
    s.fault = none ∧
    (∃ l : Lists ι, Divides (parts s l) (s.Allocated width) ∧
      (∀ a b, s.Allocated width a → s.Allocated width b → a ≠ b → Apart width a b) ∧
      (∀ t, Linked s.next (s.threads t).linkedListOfFreeSlabs (l.free t) none) ∧
      (∀ t, (s.threads t).phase = .idle → l.held t = [] ∧
        (s.threads t).numberOfFreeSlabs = (l.free t).length ∧
        (s.threads t).numberOfFreeSlabs < (s.threads t).cutOffThreshold) ∧
      List.Forall₂ (fun node chunk => chunk.length = NUMBER_OF_SLABS_PER_CHUNK ∧
        Linked s.next node.chunkHead chunk none ∧ node.chunkTail = chunk.getLast?)
        s.freeChunks l.central) ∧
    ∀ s' a, Step width s s' → s'.live = a :: s.live → a ∉ s.live := by
  have hsound := Sound.of_reaches hwidth h
  obtain ⟨l, hl⟩ := hsound.divided
  refine ⟨hsound.fault, ⟨l, hl.divides, hl.apart, fun t => (hl.threads t).linked, fun t ht => ?_,
    hl.central.imp fun _ _ hchunk => ⟨hchunk.length, hchunk.linked, hchunk.tail⟩⟩,
    fun s' a hstep hlive => ?_⟩
  · have hgood := hl.threads t
    have hnumber := hgood.number
    have hholds := hgood.holds
    have hbelow := hsound.below t
    simp only [LocalPool.Below, ht] at hbelow
    rw [ht] at hnumber hholds
    exact ⟨hholds, hnumber, hbelow⟩
  · obtain ⟨l', hl'⟩ := (hsound.step hwidth hstep).divided
    have hnodup := hl'.divides.nodup .live
    rw [parts, hlive] at hnodup
    exact (List.nodup_cons.mp hnodup).1

/-- A thread gets its first chunk. -/
theorem slabs_divided_first_chunk :
    ((State.initial.look true).mount 8 true ⟨none, none⟩ 4096 : State Bool).fault = none := by
  have hlook : Step 8 (State.initial : State Bool) (State.initial.look true) :=
    .allocate true 1 rfl rfl rfl
  have hfresh : (State.initial.look true : State Bool).Fresh 8 4096 := by
    intro t chunk hchunk
    cases t <;> cases hchunk
  have hmount : Step 8 (State.initial.look true : State Bool) _ :=
    .mount true ⟨none, none⟩ 4096 rfl rfl hfresh
  exact (slabs_divided (by decide) (.tail (.single hlook) hmount)).1

end XubinhServer.StaticThreadLocalSlabAllocator

import XubinhServer.SlabAllocator.LockFree

/-! Where the slabs of the lock-free allocator are: live, on the stack, or with a call that is in
progress. Its tag tells a thread whether the head that it has loaded is still the head. -/
namespace XubinhServer.SemiLockFreeSlabAllocator

open Transition FreeList SlabAllocator

inductive Place (ι : Type) where
  | live
  | stack
  | held (t : ι)
  deriving DecidableEq

variable {ι : Type}

def parts (s : State ι) (stack : List Nat) (held : ι → List Nat) : Place ι → List Nat
  | .live => s.live
  | .stack => stack
  | .held t => held t

/-- A head that has been loaded: it is the head still, or the tag has grown. -/
def Loaded (head oldHead : TaggedLinkedListNodePtr) : Prop :=
  oldHead.tag ≤ head.tag ∧ (oldHead.tag = head.tag → head = oldHead)

/-- What a call holds. What `allocate` has read from a node counts only while that node is on top
of the stack. -/
def Phase.Holds (width : Nat) (next : Memory) (head : TaggedLinkedListNodePtr)
    (held : List Nat) : Phase → Prop
  | .idle => held = []
  | .looking oldHead => held = [] ∧ Loaded head oldHead
  | .popping node tag newHead => held = [] ∧ Loaded head ⟨some node, tag⟩ ∧
      newHead.tag = tag + 1 ∧ (head = ⟨some node, tag⟩ → newHead.nodePtr = next node)
  | .linking newChunk i previousNode => held = slabs width newChunk NUMBER_OF_SLABS_PER_CHUNK ∧
      0 < i ∧ i < NUMBER_OF_SLABS_PER_CHUNK ∧ previousNode + width = newChunk + width * i ∧
      Linked next (some previousNode) (slabs width newChunk i).reverse (next newChunk)
  | .joining nodes _ => ∃ init, held.Perm (nodes.preservedSlab.toList ++ (init ++ [nodes.tail])) ∧
      Linked next (some nodes.nodePtr) (init ++ [nodes.tail]) (next nodes.tail)
  | .pushing nodes oldHead newHead => newHead = ⟨some nodes.nodePtr, oldHead.tag + 1⟩ ∧
      ∃ init, held.Perm (nodes.preservedSlab.toList ++ (init ++ [nodes.tail])) ∧
        Linked next (some nodes.nodePtr) (init ++ [nodes.tail]) oldHead.nodePtr

/-- The slabs of all allocated chunks are divided into the live ones, the stack, and what the calls
in progress hold. -/
structure Stacked (width : Nat) (s : State ι) (stack : List Nat) (held : ι → List Nat) : Prop where
  divides : Divides (parts s stack held) (s.Allocated width)
  apart : ∀ a b, s.Allocated width a → s.Allocated width b → a ≠ b → Apart width a b
  linked : Linked s.next s.linkedListOfFreeSlabs.nodePtr stack none
  threads : ∀ t, (s.threads t).Holds width s.next s.linkedListOfFreeSlabs (held t)

section Frame

variable {width : Nat} {next next' : Memory} {head head' : TaggedLinkedListNodePtr}
  {held : List Nat} {phase : Phase}

/-- Another thread has changed the head. -/
theorem Loaded.raise {oldHead : TaggedLinkedListNodePtr} (h : Loaded head oldHead)
    (hlt : head.tag < head'.tag) : Loaded head' oldHead := by
  obtain ⟨hle, _⟩ := h
  exact ⟨by omega, fun heq => by omega⟩

theorem Phase.Holds.raise (h : phase.Holds width next head held) (hlt : head.tag < head'.tag) :
    phase.Holds width next head' held := by
  cases phase with
  | idle => exact h
  | looking oldHead => exact ⟨h.1, h.2.raise hlt⟩
  | popping node tag newHead =>
    obtain ⟨hheld, hloaded, htag, _⟩ := h
    refine ⟨hheld, hloaded.raise hlt, htag, fun heq => ?_⟩
    subst heq
    exact absurd hlt (Nat.not_lt.mpr hloaded.1)
  | linking newChunk i previousNode => exact h
  | joining nodes oldHead => exact h
  | pushing nodes oldHead newHead => exact h

/-- Another thread has written to nodes that are not on top of the stack. -/
theorem Phase.Holds.congr (h : phase.Holds width next head held)
    (hheld : ∀ a ∈ held, next' a = next a)
    (hhead : ∀ a, head.nodePtr = some a → next' a = next a) :
    phase.Holds width next' head held := by
  cases phase with
  | idle => exact h
  | looking oldHead => exact h
  | popping node tag newHead =>
    obtain ⟨hnil, hloaded, htag, hread⟩ := h
    refine ⟨hnil, hloaded, htag, fun heq => ?_⟩
    rw [hhead node (by rw [heq]), hread heq]
  | linking newChunk i previousNode =>
    obtain ⟨rfl, hpos, hlt, hprevious, hlinked⟩ := h
    refine ⟨rfl, hpos, hlt, hprevious, ?_⟩
    rw [hheld newChunk (base_mem_slabs (by omega))]
    refine hlinked.congr fun a ha => hheld a ?_
    exact mem_slabs_of_le (List.mem_reverse.mp ha) hlt.le
  | joining nodes oldHead =>
    obtain ⟨init, hperm, hlinked⟩ := h
    have hmem : ∀ a ∈ init ++ [nodes.tail], next' a = next a := fun a ha =>
      hheld a (hperm.mem_iff.mpr (List.mem_append_right _ ha))
    refine ⟨init, hperm, ?_⟩
    rw [hmem nodes.tail (by simp)]
    exact hlinked.congr hmem
  | pushing nodes oldHead newHead =>
    obtain ⟨hnew, init, hperm, hlinked⟩ := h
    refine ⟨hnew, init, hperm, hlinked.congr fun a ha => ?_⟩
    exact hheld a (hperm.mem_iff.mpr (List.mem_append_right _ ha))

end Frame

variable [DecidableEq ι] {width : Nat} {s s' : State ι} {stack stack' : List Nat}
  {held held' : ι → List Nat} {t : ι} {n slab newChunk : Nat}

omit [DecidableEq ι] in
/-- A thread changes what it holds, and the live slabs or the stack. -/
theorem parts_eq {k : Place ι} (hothers : ∀ u, u ≠ t → held' u = held u) (hheld : k ≠ .held t)
    (hlive : k = .live → s'.live = s.live) (hstack : k = .stack → stack' = stack) :
    parts s' stack' held' k = parts s stack held k := by
  cases k with
  | live => exact hlive rfl
  | stack => exact hstack rfl
  | held u => exact hothers u fun heq => hheld (heq ▸ rfl)

theorem threads_setThread (phase : Phase) : (s.setThread t phase).threads t = phase := by
  simp [State.setThread]

theorem threads_setThread_ne (phase : Phase) {u : ι} (hu : u ≠ t) :
    (s.setThread t phase).threads u = s.threads u := by
  simp [State.setThread, Function.update_of_ne hu]

omit [DecidableEq ι] in
theorem allocated_congr (width : Nat) (h : s'.allocatedChunks = s.allocatedChunks) :
    s'.Allocated width = s.Allocated width := by
  funext slab
  simp only [State.Allocated, h]

omit [DecidableEq ι] in
theorem allocated_append (width : Nat) (h : s'.allocatedChunks = s.allocatedChunks ++ [newChunk])
    (a : Nat) : s'.Allocated width a ↔
      a ∈ slabs width newChunk NUMBER_OF_SLABS_PER_CHUNK ∨ s.Allocated width a := by
  simp only [State.Allocated, h, List.mem_append, List.mem_singleton]
  constructor
  · intro hex
    obtain ⟨chunk, hold | rfl, ha⟩ := hex
    · exact .inr ⟨chunk, hold, ha⟩
    · exact .inl ha
  · intro hor
    cases hor with
    | inl ha => exact ⟨newChunk, .inr rfl, ha⟩
    | inr hex =>
      obtain ⟨chunk, hchunk, ha⟩ := hex
      exact ⟨chunk, .inl hchunk, ha⟩

omit [DecidableEq ι] in
theorem State.Fresh.apart (h : s.Fresh width newChunk) :
    ∀ a ∈ slabs width newChunk NUMBER_OF_SLABS_PER_CHUNK,
      ∀ b, s.Allocated width b → Apart width a b := by
  intro a ha b hb
  obtain ⟨chunk, hchunk, hb⟩ := hb
  have hafter := mem_slabs_bounds ha
  have hbefore := mem_slabs_bounds hb
  cases h chunk hchunk with
  | inl hle => exact .inr (by omega)
  | inr hle => exact .inl (by omega)

namespace Stacked

omit [DecidableEq ι] in
/-- A step of the thread `t`. It changes no node that another call holds, and none on top of the
stack unless it changes the head. -/
theorem of_thread (h : Stacked width s stack held) (t : ι)
    (hchunks : s'.allocatedChunks = s.allocatedChunks)
    (hdivides : Divides (parts s' stack' held') (s.Allocated width))
    (hlinked : Linked s'.next s'.linkedListOfFreeSlabs.nodePtr stack' none)
    (hthread : (s'.threads t).Holds width s'.next s'.linkedListOfFreeSlabs (held' t))
    (hothers : ∀ u, u ≠ t → s'.threads u = s.threads u ∧ held' u = held u)
    (hheld : ∀ u, u ≠ t → ∀ a ∈ held u, s'.next a = s.next a)
    (htop : ∀ a, s.linkedListOfFreeSlabs.nodePtr = some a → s'.next a = s.next a)
    (hhead : s'.linkedListOfFreeSlabs = s.linkedListOfFreeSlabs ∨
      s.linkedListOfFreeSlabs.tag < s'.linkedListOfFreeSlabs.tag) :
    Stacked width s' stack' held' := by
  have hall := allocated_congr width hchunks
  refine ⟨hall ▸ hdivides, hall ▸ h.apart, hlinked, fun u => ?_⟩
  by_cases hu : u = t
  · subst hu
    exact hthread
  · obtain ⟨hphase, hheld'⟩ := hothers u hu
    rw [hphase, hheld']
    have hframe := (h.threads u).congr (hheld u hu) htop
    cases hhead with
    | inl heq =>
      rw [heq]
      exact hframe
    | inr hlt => exact hframe.raise hlt

/-- A step of the thread `t` that moves nothing. -/
theorem setThread (h : Stacked width s stack held) {phase : Phase}
    (hphase : phase.Holds width s.next s.linkedListOfFreeSlabs (held t)) :
    Stacked width (s.setThread t phase) stack held := by
  refine h.of_thread t rfl h.divides h.linked ?_ ?_ (fun u hu a _ => rfl) (fun a _ => rfl)
    (.inl rfl)
  · rw [threads_setThread]
    exact hphase
  · intro u hu
    exact ⟨threads_setThread_ne phase hu, rfl⟩

omit [DecidableEq ι] in
theorem mem_stack_of_top (h : Stacked width s stack held) {a : Nat}
    (ha : s.linkedListOfFreeSlabs.nodePtr = some a) : a ∈ parts s stack held .stack := by
  have hlinked := h.linked
  rw [ha] at hlinked
  obtain ⟨rest, hstack, _⟩ := hlinked.pop
  simp [parts, hstack]

omit [DecidableEq ι] in
theorem write (h : Stacked width s stack held) (hslab : slab ∈ s.live) (value : Option Nat) :
    Stacked width { s with next := Function.update s.next slab value } stack held := by
  have hne : ∀ k : Place ι, .live ≠ k → ∀ a ∈ parts s stack held k,
      Function.update s.next slab value a = s.next a :=
    h.divides.update_eq (j := .live) hslab s.next _
  refine ⟨h.divides, h.apart, h.linked.congr (hne .stack nofun), fun t => ?_⟩
  refine (h.threads t).congr (hne (.held t) nofun) fun a ha => hne .stack nofun a ?_
  exact h.mem_stack_of_top ha

theorem loaded (head : TaggedLinkedListNodePtr) : Loaded head head := ⟨le_refl _, fun _ => rfl⟩

/-- `_allocate_one_chunk` begins. -/
theorem allocateOneChunk (hwidth : 0 < width) (h : Stacked width s stack held)
    (hheld : held t = []) (hfresh : s.Fresh width newChunk) :
    Stacked width
      ({ s with allocatedChunks := s.allocatedChunks ++ [newChunk] }.setThread t
        (.linking newChunk 1 newChunk))
      stack (Function.update held t (slabs width newChunk NUMBER_OF_SLABS_PER_CHUNK)) := by
  have htwo := two_le_NUMBER_OF_SLABS_PER_CHUNK
  have hapart := hfresh.apart
  have hnew : ∀ a ∈ slabs width newChunk NUMBER_OF_SLABS_PER_CHUNK, ¬s.Allocated width a :=
    fun a ha hall => (hapart a ha a hall).ne hwidth rfl
  have hall : ∀ a, ({ s with allocatedChunks := s.allocatedChunks ++ [newChunk] }.setThread t
      (.linking newChunk 1 newChunk)).Allocated width a ↔
        a ∈ slabs width newChunk NUMBER_OF_SLABS_PER_CHUNK ∨ s.Allocated width a :=
    allocated_append width rfl
  refine ⟨?_, ?_, h.linked, fun u => ?_⟩
  · refine h.divides.grown (j := .held t) (nodup_slabs hwidth) hnew hall ?_ ?_
    · simp [parts, hheld]
    · refine fun k hk => parts_eq (fun u hu => ?_) hk (fun _ => rfl) fun _ => rfl
      exact Function.update_of_ne hu _ _
  · exact apart_of_grown hall hapart h.apart
  · by_cases hu : u = t
    · subst hu
      rw [threads_setThread, Function.update_self]
      exact ⟨rfl, by omega, by omega, by omega, rfl, rfl⟩
    · rw [threads_setThread_ne _ hu, Function.update_of_ne hu]
      exact h.threads u

theorem look (hwidth : 0 < width) (h : Stacked width s stack held)
    {oldHead : TaggedLinkedListNodePtr} (ht : s.threads t = .looking oldHead)
    (hfresh : s.Fresh width newChunk) :
    ∃ held', Stacked width (s.look t oldHead newChunk) stack held' := by
  have hholds := h.threads t
  rw [ht] at hholds
  obtain ⟨hheld, hloaded⟩ := hholds
  cases hnode : oldHead.nodePtr with
  | some node =>
    have hlook : s.look t oldHead newChunk =
        s.setThread t (.popping node oldHead.tag ⟨s.next node, oldHead.tag + 1⟩) := by
      simp [State.look, hnode]
    rw [hlook]
    refine ⟨held, h.setThread ⟨hheld, ?_, rfl, fun _ => rfl⟩⟩
    rw [← hnode]
    exact hloaded
  | none =>
    have htwo := two_le_NUMBER_OF_SLABS_PER_CHUNK
    have hone : NUMBER_OF_SLABS_PER_CHUNK ≠ 1 := by omega
    have hlook : s.look t oldHead newChunk =
        { s with allocatedChunks := s.allocatedChunks ++ [newChunk] }.setThread t
          (.linking newChunk 1 newChunk) := by
      simp [State.look, hnode, State.allocateOneChunk, hone]
    rw [hlook]
    exact ⟨_, h.allocateOneChunk hwidth hheld hfresh⟩

/-- The `compare_exchange_weak` of `allocate`. The head is the one that has been loaded only if no
other thread has changed it, so that the node that has been read is the next one still. -/
theorem pop (h : Stacked width s stack held) {node tag : Nat} {newHead : TaggedLinkedListNodePtr}
    {spurious : Bool} (ht : s.threads t = .popping node tag newHead) :
    ∃ stack', Stacked width (s.pop t node tag newHead spurious) stack' held := by
  have hholds := h.threads t
  rw [ht] at hholds
  obtain ⟨hheld, hloaded, htag, hread⟩ := hholds
  by_cases hswap : s.linkedListOfFreeSlabs = ⟨some node, tag⟩ ∧ spurious = false
  · obtain ⟨hhead, hspurious⟩ := hswap
    have hpop : s.pop t node tag newHead spurious =
        { s with linkedListOfFreeSlabs := newHead }.finish t (some node) := by
      simp [State.pop, hhead, hspurious]
    have hlinked := h.linked
    rw [hhead] at hlinked
    obtain ⟨rest, hstack, hrest⟩ := hlinked.pop
    rw [hpop]
    refine ⟨rest, h.of_thread t rfl ?_ ?_ ?_ ?_ (fun u hu a _ => rfl) (fun a _ => rfl) (.inr ?_)⟩
    · refine h.divides.moved (i := .stack) (j := .live) (m := [node]) (r := rest) nofun
        ?_ ?_ ?_ ?_
      · simp [parts, hstack]
      · simp [parts]
      · simp [parts, State.finish]
      · intro k hk hk'
        cases k with
        | live => exact absurd rfl hk'
        | stack => exact absurd rfl hk
        | held u => rfl
    · rw [← hread hhead] at hrest
      exact hrest
    · simpa [State.finish, State.setThread, Phase.Holds] using hheld
    · intro u hu
      exact ⟨threads_setThread_ne .idle hu, rfl⟩
    · rw [hhead]
      change tag < newHead.tag
      omega
  · have hpop : s.pop t node tag newHead spurious =
        s.setThread t (.looking s.linkedListOfFreeSlabs) := by
      simp [State.pop, hswap]
    rw [hpop]
    exact ⟨stack, h.setThread ⟨hheld, loaded _⟩⟩

theorem join (h : Stacked width s stack held) {nodes : Insertion}
    {oldHead : TaggedLinkedListNodePtr} (ht : s.threads t = .joining nodes oldHead) :
    Stacked width (s.join t nodes oldHead) stack held := by
  have hholds := h.threads t
  rw [ht] at hholds
  obtain ⟨init, hperm, hlinked⟩ := hholds
  have htail : nodes.tail ∈ held t := hperm.mem_iff.mpr (by simp)
  have hinit : nodes.tail ∉ init := by
    intro hmem
    have hnodup := hperm.nodup_iff.mp (h.divides.nodup (.held t))
    have hchain := (List.nodup_append.mp hnodup).2.1
    exact (List.nodup_append.mp hchain).2.2 _ hmem _ (List.mem_singleton_self _) rfl
  have hne : ∀ k : Place ι, .held t ≠ k → ∀ a ∈ parts s stack held k,
      Function.update s.next nodes.tail oldHead.nodePtr a = s.next a :=
    h.divides.update_eq (j := .held t) htail s.next _
  refine h.of_thread t rfl h.divides (h.linked.congr (hne .stack nofun)) ?_ ?_
    (fun u hu => hne (.held u) fun heq => hu (Place.held.inj heq).symm) ?_ (.inl rfl)
  · rw [State.join, threads_setThread]
    exact ⟨rfl, init, hperm, hlinked.setLast hinit oldHead.nodePtr⟩
  · intro u hu
    exact ⟨threads_setThread_ne _ hu, rfl⟩
  · intro a ha
    refine hne .stack nofun a ?_
    exact h.mem_stack_of_top ha

theorem link (hwidth : 0 < width) (h : Stacked width s stack held) {i previousNode : Nat}
    (ht : s.threads t = .linking newChunk i previousNode) :
    Stacked width (s.link width t newChunk i previousNode) stack held := by
  have hholds := h.threads t
  rw [ht] at hholds
  obtain ⟨hheld, hpos, hlt, hprevious, hlinked⟩ := hholds
  by_cases hi : i < NUMBER_OF_SLABS_PER_CHUNK - 1
  · have hlink : s.link width t newChunk i previousNode =
        { s with
          next := Function.update s.next (previousNode + width) (some previousNode) }.setThread t
          (.linking newChunk (i + 1) (previousNode + width)) := by
      simp [State.link, hi]
    have hmem : previousNode + width ∈ held t := by
      rw [hheld, hprevious]
      refine mem_slabs_of_le (n := i + 1) ?_ (by omega)
      rw [slabs_succ]
      exact List.mem_append_right _ (List.mem_singleton_self _)
    have hnew : previousNode + width ∉ (slabs width newChunk i).reverse := by
      intro hold
      have hbounds := mem_slabs_bounds (List.mem_reverse.mp hold)
      omega
    have hfirst : newChunk ≠ previousNode + width := by
      have hmul := Nat.mul_pos hwidth hpos
      omega
    have hne : ∀ k : Place ι, .held t ≠ k → ∀ a ∈ parts s stack held k,
        Function.update s.next (previousNode + width) (some previousNode) a = s.next a :=
      h.divides.update_eq (j := .held t) hmem s.next _
    rw [hlink]
    refine h.of_thread t rfl h.divides (h.linked.congr (hne .stack nofun)) ?_ ?_
      (fun u hu => hne (.held u) fun heq => hu (Place.held.inj heq).symm)
      (fun a ha => hne .stack nofun a (h.mem_stack_of_top ha)) (.inl rfl)
    · rw [threads_setThread]
      refine ⟨hheld, by omega, by omega, ?_, ?_⟩
      · rw [hprevious, Nat.mul_succ]
        omega
      · have hpushed := hlinked.push hnew
        simp only [State.setThread]
        rw [Function.update_of_ne hfirst, slabs_succ, ← hprevious, List.reverse_append]
        exact hpushed
    · intro u hu
      exact ⟨threads_setThread_ne _ hu, rfl⟩
  · have hlink : s.link width t newChunk i previousNode = s.setThread t
        (.joining ⟨previousNode, newChunk, some (previousNode + width)⟩
          s.linkedListOfFreeSlabs) := by
      simp [State.link, hi]
    have hlast : NUMBER_OF_SLABS_PER_CHUNK = i + 1 := by omega
    obtain ⟨k, rfl⟩ := Nat.exists_eq_add_of_lt hpos
    rw [Nat.zero_add] at hlinked hlast hprevious
    rw [slabs, List.reverse_cons] at hlinked
    rw [hlink]
    refine h.setThread ⟨(slabs width (newChunk + width) k).reverse, ?_, hlinked⟩
    rw [hheld, hlast, slabs_succ, ← hprevious, slabs]
    refine List.perm_append_comm.trans (List.Perm.append_left _ ?_)
    rw [← List.reverse_cons]
    exact (List.reverse_perm _).symm

theorem deallocate (h : Stacked width s stack held) (ht : s.threads t = .idle)
    (hslab : slab ∈ s.live) :
    Stacked width
      ({ s with live := s.live.erase slab }.setThread t
        (.joining ⟨slab, slab, none⟩ s.linkedListOfFreeSlabs))
      stack (Function.update held t [slab]) := by
  have hheld := h.threads t
  rw [ht] at hheld
  refine h.of_thread t rfl ?_ h.linked ?_ ?_ (fun u hu a _ => rfl) (fun a _ => rfl) (.inl rfl)
  · refine h.divides.moved (i := .live) (j := .held t) (m := [slab]) (r := s.live.erase slab)
      nofun ?_ ?_ ?_ ?_
    · exact List.perm_cons_erase hslab
    · simp [parts, State.setThread]
    · rw [Phase.Holds] at hheld
      simp [parts, hheld]
    · refine fun k hk hk' => parts_eq (fun u hu => ?_) hk' (fun heq => absurd heq hk) fun _ => rfl
      exact Function.update_of_ne hu _ _
  · rw [threads_setThread, Function.update_self]
    exact ⟨[], List.Perm.refl _, rfl, rfl⟩
  · intro u hu
    exact ⟨threads_setThread_ne _ hu, Function.update_of_ne hu _ _⟩

/-- The `compare_exchange_weak` of a loop that inserts nodes. -/
theorem push (h : Stacked width s stack held) {nodes : Insertion}
    {oldHead newHead : TaggedLinkedListNodePtr} {spurious : Bool}
    (ht : s.threads t = .pushing nodes oldHead newHead) :
    ∃ stack' held',
      Stacked width (s.push t nodes oldHead newHead spurious) stack' held' := by
  have hholds := h.threads t
  rw [ht] at hholds
  obtain ⟨hnew, init, hperm, hlinked⟩ := hholds
  by_cases hswap : s.linkedListOfFreeSlabs = oldHead ∧ spurious = false
  · obtain ⟨hhead, hspurious⟩ := hswap
    have hpush : s.push t nodes oldHead newHead spurious =
        { s with linkedListOfFreeSlabs := newHead }.finish t nodes.preservedSlab := by
      simp [State.push, hhead, hspurious]
    have hchain : Divides (parts s (init ++ [nodes.tail] ++ stack)
        (Function.update held t nodes.preservedSlab.toList)) (s.Allocated width) := by
      refine h.divides.moved (i := .held t) (j := .stack) (m := init ++ [nodes.tail])
        (r := nodes.preservedSlab.toList) nofun ?_ ?_ ?_ ?_
      · exact hperm.trans List.perm_append_comm
      · simp [parts]
      · simp [parts]
      · refine fun k hk hk' => parts_eq (fun u hu => ?_) hk (fun _ => rfl) fun heq => absurd heq hk'
        exact Function.update_of_ne hu _ _
    rw [hpush]
    refine ⟨init ++ [nodes.tail] ++ stack, Function.update held t [],
      h.of_thread t rfl ?_ ?_ ?_ ?_ (fun u hu a _ => rfl) (fun a _ => rfl) (.inr ?_)⟩
    · refine hchain.moved (i := .held t) (j := .live) (m := nodes.preservedSlab.toList) (r := [])
        nofun ?_ ?_ ?_ ?_
      · simp [parts]
      · simp [parts]
      · simp [parts, State.finish]
      · refine fun k hk hk' => parts_eq (fun u hu => ?_) hk (fun heq => absurd heq hk') fun _ => rfl
        simp [Function.update_of_ne hu]
    · have hstack := h.linked
      rw [hhead] at hstack
      simp only [State.finish, State.setThread, hnew]
      exact linked_append.mpr ⟨oldHead.nodePtr, hlinked, hstack⟩
    · simp [State.finish, State.setThread, Phase.Holds]
    · intro u hu
      exact ⟨threads_setThread_ne .idle hu, Function.update_of_ne hu _ _⟩
    · rw [hhead]
      simp [State.finish, State.setThread, hnew]
  · have hpush : s.push t nodes oldHead newHead spurious =
        s.setThread t (.joining nodes s.linkedListOfFreeSlabs) := by
      simp [State.push, hswap]
    rw [hpush]
    refine ⟨stack, held, h.setThread ⟨init, hperm, ?_⟩⟩
    rw [hlinked.next_eq]
    exact hlinked

end Stacked

omit [DecidableEq ι] in
theorem stacked_initial : Stacked width (State.initial : State ι) [] fun _ => [] := by
  refine ⟨⟨?_, ?_, ?_⟩, ?_, rfl, fun t => rfl⟩
  · intro k
    cases k <;> exact List.nodup_nil
  · intro j k a ha
    cases j <;> cases ha
  · intro a
    constructor
    · intro hex
      obtain ⟨chunk, hchunk, _⟩ := hex
      cases hchunk
    · intro hex
      obtain ⟨k, hk⟩ := hex
      cases k <;> cases hk
  · intro a b ha
    obtain ⟨chunk, hchunk, _⟩ := ha
    cases hchunk

theorem Stacked.step (hwidth : 0 < width) (h : Stacked width s stack held)
    (hstep : Step width s s') : ∃ stack' held', Stacked width s' stack' held' := by
  cases hstep with
  | allocate t n ht hok =>
    have hheld := h.threads t
    rw [ht] at hheld
    simp only [State.allocate] at hok
    split at hok
    · cases hok
    · cases hok
      exact ⟨stack, held, h.setThread ⟨hheld, loaded _⟩⟩
  | look t oldHead newChunk ht hnew => exact ⟨stack, h.look hwidth ht hnew⟩
  | pop t node tag newHead spurious ht =>
    obtain ⟨stack', hstack'⟩ := h.pop ht
    exact ⟨stack', held, hstack'⟩
  | link t newChunk i previousNode ht => exact ⟨stack, held, h.link hwidth ht⟩
  | deallocate name t slab ht hslab hok =>
    cases hok
    exact ⟨stack, _, h.deallocate ht hslab⟩
  | join t nodes oldHead ht => exact ⟨stack, held, h.join ht⟩
  | push t nodes oldHead newHead spurious ht => exact h.push ht
  | write slab value hslab => exact ⟨stack, held, h.write hslab value⟩

theorem exists_stacked (hwidth : 0 < width) (h : Reaches (Step width) State.initial s) :
    ∃ stack held, Stacked width s stack held :=
  h.invariant (I := fun s => ∃ stack held, Stacked width s stack held)
    ⟨[], fun _ => [], stacked_initial⟩ fun _ _ hstacked hstep => by
      obtain ⟨stack, held, hstacked⟩ := hstacked
      exact hstacked.step hwidth hstep

/-- Every slab of every chunk is live, on the stack, or with one call in progress; a node that
`allocate` installs as the head is the second one of the stack; and no live slab is returned
again. -/
theorem slabs_stacked (hwidth : 0 < width) (h : Reaches (Step width) State.initial s) :
    (∃ stack held, Divides (parts s stack held) (s.Allocated width) ∧
      (∀ a b, s.Allocated width a → s.Allocated width b → a ≠ b → Apart width a b) ∧
      Linked s.next s.linkedListOfFreeSlabs.nodePtr stack none ∧
      (∀ t, s.threads t = .idle → held t = []) ∧
      ∀ t node tag newHead, s.threads t = .popping node tag newHead →
        s.linkedListOfFreeSlabs = ⟨some node, tag⟩ →
          ∃ rest, stack = node :: rest ∧ newHead.nodePtr = rest.head?) ∧
    ∀ s' a, Step width s s' → s'.live = a :: s.live → a ∉ s.live := by
  obtain ⟨stack, held, hstacked⟩ := exists_stacked hwidth h
  refine ⟨⟨stack, held, hstacked.divides, hstacked.apart, hstacked.linked, fun t ht => ?_, ?_⟩,
    fun s' a hstep hlive => ?_⟩
  · have hheld := hstacked.threads t
    rw [ht] at hheld
    exact hheld
  · intro t node tag newHead ht hhead
    have hholds := hstacked.threads t
    have hlinked := hstacked.linked
    rw [ht] at hholds
    rw [hhead] at hlinked
    obtain ⟨rest, hstack, hrest⟩ := hlinked.pop
    obtain ⟨_, _, _, hread⟩ := hholds
    exact ⟨rest, hstack, (hread hhead).trans hrest.head_eq⟩
  · obtain ⟨stack', held', hstacked'⟩ := hstacked.step hwidth hstep
    have hnodup := hstacked'.divides.nodup .live
    rw [parts, hlive] at hnodup
    exact (List.nodup_cons.mp hnodup).1

/-- One of two threads begins to link its first chunk. -/
theorem slabs_stacked_first_chunk :
    ∃ stack held, Divides
      (parts ((State.initial.setThread true (.looking ⟨none, 0⟩)).look true ⟨none, 0⟩ 4096)
        stack held)
      (((State.initial.setThread true (.looking ⟨none, 0⟩)).look true ⟨none, 0⟩ 4096).Allocated
        8) := by
  have hload : Step 8 (State.initial : State Bool) _ := .allocate true 1 rfl rfl
  have hlook : Step 8 (State.initial.setThread true (.looking ⟨none, 0⟩)) _ :=
    .look true ⟨none, 0⟩ 4096 rfl fun chunk hchunk => nomatch hchunk
  obtain ⟨⟨stack, held, hdivides, _⟩, _⟩ :=
    slabs_stacked (by decide) (.tail (.single hload) hlook)
  exact ⟨stack, held, hdivides⟩

end XubinhServer.SemiLockFreeSlabAllocator

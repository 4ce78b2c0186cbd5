import Mathlib.Data.List.Infix
import Mathlib.Data.List.Perm.Basic
import XubinhServer.Lib.FreeList
import XubinhServer.SpscLockFreeQueue

/-! The values leave the queue in the order in which they came, and no deleted node is touched. -/
namespace XubinhServer.SpscLockFreeQueue

open Transition FreeList

variable {T : Type} {s t : State T} {history : List (Event T)} {chain : List Nat} {node : Nat}

section History

variable {value : T} {poppedElement : Option T}

@[simp] theorem pushes_pushed :
    pushes (history ++ [.pushed value]) = pushes history ++ [value] := by
  simp [pushes, Event.pushed?]

@[simp] theorem pushes_completed : pushes (history ++ [.completed]) = pushes history := by
  simp [pushes, Event.pushed?]

@[simp] theorem pushes_returned :
    pushes (history ++ [.returned poppedElement]) = pushes history := by
  simp [pushes, Event.pushed?]

@[simp] theorem pops_pushed : pops (history ++ [.pushed value]) = pops history := by
  simp [pops, Event.popped?]

@[simp] theorem pops_completed : pops (history ++ [.completed]) = pops history := by
  simp [pops, Event.popped?]

@[simp] theorem pops_returned :
    pops (history ++ [.returned poppedElement]) = pops history ++ poppedElement.toList := by
  cases poppedElement with
  | none => simp [pops, Event.popped?]
  | some value => simp [pops, Event.popped?]

@[simp] theorem completions_returned :
    completions (history ++ [.returned poppedElement]) = completions history := by
  simp [completions, Event.isCompleted]

theorem completions_pushed (hcount : history.countP Event.isCompleted ≤ (pushes history).length) :
    completions (history ++ [.pushed value]) = completions history := by
  simp [completions, Event.isCompleted, List.take_append_of_le_length hcount]

theorem completions_completed
    (hcount : (pushes history).length ≤ history.countP Event.isCompleted + 1) :
    completions (history ++ [.completed]) = pushes history := by
  simp [completions, Event.isCompleted, List.take_of_length_le hcount]

theorem completions_prefix : completions history <+: pushes history :=
  List.take_prefix _ _

end History

/-- A null pointer has been returned only when every value whose push had completed was popped. -/
def EmptyWhenPopped (history : List (Event T)) : Prop :=
  ∀ earlier, earlier ++ [.returned none] <+: history → completions earlier = pops earlier

theorem EmptyWhenPopped.concat {event : Event T} (h : EmptyWhenPopped history)
    (hevent : event = .returned none → completions history = pops history) :
    EmptyWhenPopped (history ++ [event]) := by
  intro earlier hearlier
  cases List.prefix_concat_iff.mp hearlier with
  | inl heq =>
    obtain ⟨hhistory, hlast⟩ := List.append_inj' heq rfl
    cases hlast
    rw [hhistory]
    exact hevent rfl
  | inr hprefix => exact h earlier hprefix

/-- The node that has been allocated and is not linked. -/
def Producer.unlinked : Producer → List Nat
  | .idle => []
  | .pushing newNode => [newNode]
  | .moving newNode _ => [newNode]
  | .linking newNode _ => [newNode]

/-- What the producer knows of `_tail` and of the last node that is linked. -/
def Producer.Stands (last? : Option Nat) (tail : Nat) : Producer → Prop
  | .idle => last? = some tail
  | .pushing _ => last? = some tail
  | .moving _ oldTail => last? = some tail ∧ oldTail = tail
  | .linking newNode oldTail => last? = some oldTail ∧ newNode = tail

/-- The node that `_head` has left and that is not deleted. -/
def Consumer.retired : Consumer T → List Nat
  | .deleting _ oldHead => [oldHead]
  | _ => []

/-- The value that has been taken out of its node and has not been returned. -/
def Consumer.taking : Consumer T → List (Option T)
  | .cleared _ poppedElement => [poppedElement]
  | .moving _ poppedElement _ => [poppedElement]
  | .deleting poppedElement _ => [poppedElement]
  | _ => []

/-- The nodes of the chain that still have their values. -/
def Consumer.untaken (chain : List Nat) : Consumer T → List Nat
  | .cleared _ _ => chain.tail
  | .moving _ _ _ => chain.tail
  | _ => chain

/-- What the consumer knows of `_head` and of the chain behind it. -/
def Consumer.Stands (head : Nat) (chain : List Nat) (value : Nat → Option T) : Consumer T → Prop
  | .idle => True
  | .looking oldHead => oldHead = head
  | .found next => ∃ rest, chain = next :: rest
  | .taken next poppedElement => (∃ rest, chain = next :: rest) ∧ value next = poppedElement
  | .cleared next _ => ∃ rest, chain = next :: rest
  | .moving next _ oldHead => (∃ rest, chain = next :: rest) ∧ oldHead = head
  | .deleting _ _ => True

/-- The nodes behind the dummy node `_head` are `chain`. -/
structure Holds (s : State T) (chain : List Nat) : Prop where
  linked : Linked s.next (some s.head) (s.head :: chain) none
  nodes : s.live.Perm (s.consumer.retired ++ (s.head :: chain) ++ s.producer.unlinked)
  nodup : s.live.Nodup
  unlinked : ∀ newNode ∈ s.producer.unlinked, s.next newNode = none
  produces : s.producer.Stands (s.head :: chain).getLast? s.tail
  consumes : s.consumer.Stands s.head chain s.value
  popped : (pops s.history).map some ++ s.consumer.taking ++
    (s.consumer.untaken chain).map s.value = (completions s.history).map some
  pushed : (completions s.history).map some ++ s.producer.unlinked.map s.value =
    (pushes s.history).map some
  count : s.history.countP Event.isCompleted + s.producer.unlinked.length =
    (pushes s.history).length
  empty : EmptyWhenPopped s.history

namespace Holds

theorem construct (next : Nat → Option Nat) (value : Nat → Option T) (node : Nat) :
    Holds (State.construct next value node) [] where
  linked := ⟨rfl, by simp [State.construct]⟩
  nodes := List.Perm.refl [node]
  nodup := List.nodup_singleton node
  unlinked := fun _ hmem => nomatch hmem
  produces := rfl
  consumes := trivial
  popped := rfl
  pushed := rfl
  count := rfl
  empty := fun _ hprefix => by simp [State.construct] at hprefix

theorem nodup_parts (h : Holds s chain) :
    (s.consumer.retired ++ (s.head :: chain) ++ s.producer.unlinked).Nodup :=
  h.nodes.nodup_iff.mp h.nodup

theorem nodup_chain (h : Holds s chain) : (s.head :: chain).Nodup :=
  (List.nodup_append.mp (List.nodup_append.mp h.nodup_parts).1).2.1

theorem live_of_chain (h : Holds s chain) (hnode : node ∈ s.head :: chain) : node ∈ s.live :=
  h.nodes.mem_iff.mpr (List.mem_append_left _ (List.mem_append_right _ hnode))

theorem live_of_retired (h : Holds s chain) (hnode : node ∈ s.consumer.retired) :
    node ∈ s.live :=
  h.nodes.mem_iff.mpr (List.mem_append_left _ (List.mem_append_left _ hnode))

theorem ne_of_unlinked (h : Holds s chain) {newNode : Nat} (hnode : node ∈ s.head :: chain)
    (hnew : newNode ∈ s.producer.unlinked) : node ≠ newNode :=
  (List.nodup_append.mp h.nodup_parts).2.2 node (List.mem_append_right _ hnode) newNode hnew

theorem mem_chain_of_untaken (hnode : node ∈ s.consumer.untaken chain) : node ∈ chain := by
  cases hconsumer : s.consumer with
  | cleared next poppedElement =>
    rw [hconsumer] at hnode
    exact List.mem_of_mem_tail hnode
  | moving next poppedElement oldHead =>
    rw [hconsumer] at hnode
    exact List.mem_of_mem_tail hnode
  | idle => rwa [hconsumer] at hnode
  | looking head => rwa [hconsumer] at hnode
  | found next => rwa [hconsumer] at hnode
  | taken next poppedElement => rwa [hconsumer] at hnode
  | deleting poppedElement oldHead => rwa [hconsumer] at hnode

/-- The producer has moved, and has linked nothing. -/
theorem produce_local (h : Holds s chain) {producer : Producer} {tail : Nat}
    (hunlinked : producer.unlinked = s.producer.unlinked)
    (hstands : producer.Stands (s.head :: chain).getLast? tail) :
    Holds { s with tail := tail, producer := producer } chain where
  linked := h.linked
  nodes := by rw [hunlinked]; exact h.nodes
  nodup := h.nodup
  unlinked := by rw [hunlinked]; exact h.unlinked
  produces := hstands
  consumes := h.consumes
  popped := h.popped
  pushed := by rw [hunlinked]; exact h.pushed
  count := by rw [hunlinked]; exact h.count
  empty := h.empty

/-- The consumer has moved, and has changed nothing. -/
theorem consume_local (h : Holds s chain) {consumer : Consumer T}
    (hretired : consumer.retired = s.consumer.retired)
    (htaking : consumer.taking = s.consumer.taking)
    (huntaken : consumer.untaken chain = s.consumer.untaken chain)
    (hstands : consumer.Stands s.head chain s.value) :
    Holds { s with consumer := consumer } chain where
  linked := h.linked
  nodes := by rw [hretired]; exact h.nodes
  nodup := h.nodup
  unlinked := h.unlinked
  produces := h.produces
  consumes := hstands
  popped := by rw [htaking, huntaken]; exact h.popped
  pushed := h.pushed
  count := h.count
  empty := h.empty

/-- What the consumer knows holds as long as the values in the chain are the same. -/
theorem stands_congr {consumer : Consumer T} {head : Nat} {value value' : Nat → Option T}
    (h : consumer.Stands head chain value) (hvalue : ∀ node ∈ chain, value' node = value node) :
    consumer.Stands head chain value' := by
  cases consumer with
  | taken next poppedElement =>
    obtain ⟨⟨rest, hchain⟩, hnext⟩ := h
    refine ⟨⟨rest, hchain⟩, ?_⟩
    rw [hvalue next (by rw [hchain]; exact List.mem_cons_self)]
    exact hnext
  | idle => exact h
  | looking oldHead => exact h
  | found next => exact h
  | cleared next poppedElement => exact h
  | moving next poppedElement oldHead => exact h
  | deleting poppedElement oldHead => exact h

theorem stands_append {consumer : Consumer T} {head newNode : Nat} {value : Nat → Option T}
    (h : consumer.Stands head chain value) :
    consumer.Stands head (chain ++ [newNode]) value := by
  cases consumer with
  | idle => exact h
  | looking oldHead => exact h
  | deleting poppedElement oldHead => exact h
  | found next =>
    obtain ⟨rest, rfl⟩ := h
    exact ⟨rest ++ [newNode], rfl⟩
  | cleared next poppedElement =>
    obtain ⟨rest, rfl⟩ := h
    exact ⟨rest ++ [newNode], rfl⟩
  | taken next poppedElement =>
    obtain ⟨⟨rest, rfl⟩, hvalue⟩ := h
    exact ⟨⟨rest ++ [newNode], rfl⟩, hvalue⟩
  | moving next poppedElement oldHead =>
    obtain ⟨⟨rest, rfl⟩, hhead⟩ := h
    exact ⟨⟨rest ++ [newNode], rfl⟩, hhead⟩

theorem untaken_append {consumer : Consumer T} {head newNode : Nat} {value : Nat → Option T}
    (h : consumer.Stands head chain value) :
    consumer.untaken (chain ++ [newNode]) = consumer.untaken chain ++ [newNode] := by
  cases consumer with
  | idle => rfl
  | looking oldHead => rfl
  | deleting poppedElement oldHead => rfl
  | found next => rfl
  | taken next poppedElement => rfl
  | cleared next poppedElement =>
    obtain ⟨rest, rfl⟩ := h
    rfl
  | moving next poppedElement oldHead =>
    obtain ⟨⟨rest, rfl⟩, _⟩ := h
    rfl

/-- `_push` has stored the new node in `old_tail->_next`. -/
theorem link (h : Holds s chain) {newNode oldTail : Nat}
    (hproducer : s.producer = .linking newNode oldTail) :
    oldTail ∈ s.live ∧
      Holds
        { s with
          next := Function.update s.next oldTail (some newNode)
          producer := .idle
          history := s.history ++ [.completed] }
        (chain ++ [newNode]) := by
  have hnodes := h.nodes
  have hpushed := h.pushed
  have hcount := h.count
  have hproduces := h.produces
  have hunlinked := h.unlinked newNode (by rw [hproducer]; exact List.mem_singleton_self newNode)
  have hnew : ∀ node ∈ s.head :: chain, node ≠ newNode := by
    intro node hnode
    exact h.ne_of_unlinked hnode (by rw [hproducer]; exact List.mem_singleton_self newNode)
  rw [hproducer] at hnodes hpushed hcount hproduces
  obtain ⟨hlast, htail⟩ := hproduces
  obtain ⟨front, hfront⟩ := List.getLast?_eq_some_iff.mp hlast
  have holdTail : oldTail ∈ s.head :: chain := by
    rw [hfront]
    exact List.mem_append_right _ (List.mem_singleton_self oldTail)
  have hnotFront : oldTail ∉ front := by
    intro hmem
    have hnodup := h.nodup_chain
    rw [hfront] at hnodup
    exact (List.nodup_append.mp hnodup).2.2 oldTail hmem oldTail (List.mem_singleton_self _) rfl
  have hlinked : Linked (Function.update s.next oldTail (some newNode)) (some s.head)
      ((s.head :: chain) ++ [newNode]) none := by
    have hchain := h.linked
    rw [hfront] at hchain ⊢
    refine linked_append.mpr ⟨some newNode, hchain.setLast hnotFront (some newNode), rfl, ?_⟩
    rw [Function.update_of_ne (hnew oldTail holdTail).symm]
    exact hunlinked
  have hcompletions : completions (s.history ++ [.completed]) = pushes s.history :=
    completions_completed (by rw [← hcount]; exact le_rfl)
  refine ⟨h.live_of_chain holdTail, hlinked, ?_, h.nodup, ?_, ?_, ?_, ?_, ?_, ?_, ?_⟩
  · simpa [Producer.unlinked] using hnodes
  · exact fun node hmem => nomatch hmem
  · rw [← htail, ← List.cons_append]
    exact List.getLast?_concat
  · exact stands_append h.consumes
  · have hmap := h.popped
    simp only [pops_completed, hcompletions, untaken_append h.consumes, List.map_append]
    rw [← List.append_assoc, hmap]
    exact hpushed
  · simp [hcompletions, Producer.unlinked]
  · simp only [Producer.unlinked, List.length_singleton] at hcount
    simp only [List.countP_append, pushes_completed]
    exact hcount
  · exact h.empty.concat fun heq => nomatch heq

theorem push (h : Holds s chain) (hidle : s.producer = .idle) (value : T) {newNode : Nat}
    (hnew : newNode ∉ s.live) : Holds (s.push value newNode) chain := by
  have hnodes := h.nodes
  have hpushed := h.pushed
  have hcount := h.count
  have hproduces := h.produces
  rw [hidle] at hnodes hpushed hcount hproduces
  have hne : ∀ node ∈ s.head :: chain, node ≠ newNode := by
    intro node hnode heq
    exact hnew (heq ▸ h.live_of_chain hnode)
  have hvalue : ∀ node ∈ chain, (s.push value newNode).value node = s.value node := by
    intro node hnode
    exact Function.update_of_ne (hne node (List.mem_cons_of_mem _ hnode)) _ _
  have hcompletions : completions (s.history ++ [.pushed value]) = completions s.history :=
    completions_pushed (by omega)
  refine ⟨?_, ?_, List.nodup_cons.mpr ⟨hnew, h.nodup⟩, ?_, hproduces,
    stands_congr h.consumes hvalue, ?_, ?_, ?_, ?_⟩
  · exact h.linked.congr fun node hnode => Function.update_of_ne (hne node hnode) _ _
  · simp only [Producer.unlinked, List.append_nil] at hnodes
    exact (hnodes.cons newNode).trans (List.perm_append_singleton newNode _).symm
  · intro node hnode
    rw [List.mem_singleton.mp hnode]
    exact Function.update_self newNode none s.next
  · have hmap : (s.consumer.untaken chain).map (s.push value newNode).value =
        (s.consumer.untaken chain).map s.value :=
      List.map_congr_left fun node hnode => hvalue node (mem_chain_of_untaken hnode)
    have hpopped := h.popped
    rw [← hmap] at hpopped
    simp only [State.push, pops_pushed, hcompletions]
    exact hpopped
  · simp only [Producer.unlinked, List.map_nil, List.append_nil] at hpushed
    simp only [State.push, pushes_pushed, hcompletions, Producer.unlinked, List.map_cons,
      List.map_nil, Function.update_self, List.map_append, hpushed]
  · simp only [Producer.unlinked, List.length_nil] at hcount
    simp [State.push, Producer.unlinked, Event.isCompleted]
    omega
  · exact h.empty.concat fun heq => nomatch heq

/-- The load of `_head->_next` has found the end of the chain. -/
theorem look_none (h : Holds s chain) {head : Nat} (hconsumer : s.consumer = .looking head)
    (hnext : s.next head = none) :
    Holds { s with consumer := .idle, history := s.history ++ [.returned none] } chain := by
  have hpopped := h.popped
  have hnodes := h.nodes
  have hhead := h.consumes
  rw [hconsumer] at hpopped hnodes hhead
  have hchain : chain = [] := by
    have hlinked := h.linked.2
    rw [← hhead, hnext] at hlinked
    exact hlinked.eq_nil
  have hall : completions s.history = pops s.history := by
    rw [hchain] at hpopped
    simp only [Consumer.taking, Consumer.untaken, List.map_nil, List.append_nil] at hpopped
    exact (List.map_injective_iff.mpr (Option.some_injective T) hpopped).symm
  refine ⟨h.linked, hnodes, h.nodup, h.unlinked, h.produces, trivial, ?_, ?_, ?_, ?_⟩
  · simpa [Consumer.taking, Consumer.untaken] using hpopped
  · simpa using h.pushed
  · simpa [Event.isCompleted] using h.count
  · exact h.empty.concat fun _ => hall

/-- `next->_value` has been set to null. -/
theorem clear (h : Holds s chain) {next : Nat} {poppedElement : Option T}
    (hconsumer : s.consumer = .taken next poppedElement) :
    Holds
      { s with
        value := Function.update s.value next none
        consumer := .cleared next poppedElement }
      chain := by
  have hpopped := h.popped
  have hnodes := h.nodes
  have hstands := h.consumes
  rw [hconsumer] at hpopped hnodes hstands
  obtain ⟨⟨rest, hchain⟩, hvalue⟩ := hstands
  have hnext : next ∈ s.head :: chain := by
    rw [hchain]
    exact List.mem_cons_of_mem _ List.mem_cons_self
  have hnodup := h.nodup_chain
  rw [hchain] at hnodup
  have hrest : next ∉ rest := (List.nodup_cons.mp (List.nodup_cons.mp hnodup).2).1
  refine ⟨h.linked, hnodes, h.nodup, h.unlinked, h.produces, ⟨rest, hchain⟩, ?_, ?_, h.count,
    h.empty⟩
  · have hmap : rest.map (Function.update s.value next none) = rest.map s.value := by
      refine List.map_congr_left fun node hnode => ?_
      have hne : node ≠ next := fun heq => hrest (heq ▸ hnode)
      exact Function.update_of_ne hne _ _
    rw [hchain] at hpopped ⊢
    simp only [Consumer.taking, Consumer.untaken, List.map_cons, List.append_nil, hvalue]
      at hpopped
    simpa [Consumer.taking, Consumer.untaken, hmap] using hpopped
  · have hmap : s.producer.unlinked.map (Function.update s.value next none) =
        s.producer.unlinked.map s.value :=
      List.map_congr_left fun node hnode =>
        Function.update_of_ne (h.ne_of_unlinked hnext hnode).symm _ _
    simp only [hmap]
    exact h.pushed

/-- `_head` has been moved to the next node, whose value has been taken. -/
theorem advance (h : Holds s chain) {next oldHead : Nat} {poppedElement : Option T}
    (hconsumer : s.consumer = .moving next poppedElement oldHead) :
    Holds { s with head := next, consumer := .deleting poppedElement oldHead } chain.tail := by
  have hpopped := h.popped
  have hnodes := h.nodes
  have hstands := h.consumes
  have hproduces := h.produces
  have hlinked := h.linked.2
  rw [hconsumer] at hpopped hnodes hstands
  obtain ⟨⟨rest, hchain⟩, hhead⟩ := hstands
  rw [hchain] at hpopped hnodes hlinked hproduces
  rw [hchain, List.tail_cons]
  have hnext : s.next s.head = some next := hlinked.1
  refine ⟨hnext ▸ hlinked, ?_, h.nodup, h.unlinked, ?_, trivial, hpopped, h.pushed, h.count,
    h.empty⟩
  · rw [hhead]
    exact hnodes
  · rw [List.getLast?_cons_cons] at hproduces
    exact hproduces

/-- The old head has been deleted, and `pop` has returned. -/
theorem delete (h : Holds s chain) {poppedElement : Option T} {oldHead : Nat}
    (hconsumer : s.consumer = .deleting poppedElement oldHead) :
    Holds
      { s with
        live := s.live.erase oldHead
        consumer := .idle
        history := s.history ++ [.returned poppedElement] }
      chain := by
  have hpopped := h.popped
  have hnodes := h.nodes
  rw [hconsumer] at hpopped hnodes
  -- A value that has been taken is one that has been pushed, and so no null pointer.
  have hsome : ∃ value, poppedElement = some value := by
    have hmem : poppedElement ∈ (completions s.history).map some := by
      rw [← hpopped]
      exact List.mem_append_left _ (List.mem_append_right _ (List.mem_singleton_self _))
    obtain ⟨value, _, hvalue⟩ := List.mem_map.mp hmem
    exact ⟨value, hvalue.symm⟩
  obtain ⟨value, rfl⟩ := hsome
  refine ⟨h.linked, ?_, h.nodup.erase oldHead, h.unlinked, h.produces, trivial, ?_, ?_, ?_, ?_⟩
  · have herased := hnodes.erase oldHead
    simpa [Consumer.retired] using herased
  · simpa [Consumer.taking, Consumer.untaken] using hpopped
  · simpa using h.pushed
  · simpa [Event.isCompleted] using h.count
  · exact h.empty.concat fun heq => nomatch heq

theorem next_live (h : Holds s chain) {next : Nat} (hchain : ∃ rest, chain = next :: rest) :
    next ∈ s.live := by
  obtain ⟨rest, rfl⟩ := hchain
  exact h.live_of_chain (List.mem_cons_of_mem _ List.mem_cons_self)

end Holds

theorem touch_of_live (hnode : node ∈ s.live) : s.touch node t = .ok t := if_pos hnode

namespace Holds

/-- No step of `_push` touches a deleted node. -/
theorem produce (h : Holds s chain) : ∃ t, s.produce = .ok t ∧ ∃ chain', Holds t chain' := by
  have hproduces := h.produces
  cases hproducer : s.producer with
  | idle =>
    rw [State.produce, hproducer]
    exact ⟨s, rfl, chain, h⟩
  | pushing newNode =>
    rw [hproducer] at hproduces
    rw [State.produce, hproducer]
    refine ⟨_, rfl, chain, h.produce_local ?_ ⟨hproduces, rfl⟩⟩
    rw [hproducer]
    rfl
  | moving newNode oldTail =>
    rw [hproducer] at hproduces
    rw [State.produce, hproducer]
    refine ⟨_, rfl, chain, h.produce_local ?_ ⟨hproduces.2 ▸ hproduces.1, rfl⟩⟩
    rw [hproducer]
    rfl
  | linking newNode oldTail =>
    obtain ⟨hlive, hlinked⟩ := h.link hproducer
    rw [State.produce, hproducer]
    exact ⟨_, touch_of_live hlive, _, hlinked⟩

/-- No step of `pop` touches a deleted node. -/
theorem consume (h : Holds s chain) : ∃ t, s.consume = .ok t ∧ ∃ chain', Holds t chain' := by
  have hstands := h.consumes
  cases hconsumer : s.consumer with
  | idle =>
    rw [State.consume, hconsumer]
    refine ⟨_, rfl, chain, h.consume_local ?_ ?_ ?_ rfl⟩ <;> rw [hconsumer] <;> rfl
  | looking head =>
    rw [hconsumer] at hstands
    rw [State.consume, hconsumer]
    have hlive : head ∈ s.live := by
      rw [show head = s.head from hstands]
      exact h.live_of_chain List.mem_cons_self
    refine ⟨_, touch_of_live hlive, chain, ?_⟩
    rw [State.look]
    cases hnext : s.next head with
    | none => exact h.look_none hconsumer hnext
    | some next =>
      have hchain : ∃ rest, chain = next :: rest := by
        have hlinked := h.linked.2
        rw [← show head = s.head from hstands, hnext] at hlinked
        obtain ⟨rest, hrest, _⟩ := hlinked.pop
        exact ⟨rest, hrest⟩
      refine h.consume_local ?_ ?_ ?_ hchain <;> rw [hconsumer] <;> rfl
  | found next =>
    rw [hconsumer] at hstands
    rw [State.consume, hconsumer]
    refine ⟨_, touch_of_live (h.next_live hstands), chain,
      h.consume_local ?_ ?_ ?_ ⟨hstands, rfl⟩⟩ <;> rw [hconsumer] <;> rfl
  | taken next poppedElement =>
    rw [hconsumer] at hstands
    rw [State.consume, hconsumer]
    exact ⟨_, touch_of_live (h.next_live hstands.1), chain, h.clear hconsumer⟩
  | cleared next poppedElement =>
    rw [hconsumer] at hstands
    rw [State.consume, hconsumer]
    refine ⟨_, rfl, chain, h.consume_local ?_ ?_ ?_ ⟨hstands, rfl⟩⟩ <;> rw [hconsumer] <;> rfl
  | moving next poppedElement oldHead =>
    rw [State.consume, hconsumer]
    exact ⟨_, rfl, _, h.advance hconsumer⟩
  | deleting poppedElement oldHead =>
    rw [State.consume, hconsumer]
    have hlive : oldHead ∈ s.live :=
      h.live_of_retired (by rw [hconsumer]; exact List.mem_singleton_self oldHead)
    exact ⟨_, touch_of_live hlive, chain, h.delete hconsumer⟩

theorem step (h : Holds s chain) (hstep : Step s t) : ∃ chain', Holds t chain' := by
  cases hstep with
  | push value newNode hidle hnew => exact ⟨chain, h.push hidle value hnew⟩
  | produce hok =>
    obtain ⟨t', ht', hholds⟩ := h.produce
    cases ht'.symm.trans hok
    exact hholds
  | consume hok =>
    obtain ⟨t', ht', hholds⟩ := h.consume
    cases ht'.symm.trans hok
    exact hholds

theorem pops_prefix (h : Holds s chain) : pops s.history <+: pushes s.history := by
  have hmap : (pops s.history).map some <+: (completions s.history).map some := by
    rw [← h.popped, List.append_assoc]
    exact List.prefix_append _ _
  exact ((List.prefix_map_iff_of_injective (Option.some_injective T)).mp hmap).trans
    completions_prefix

end Holds

theorem holds_of_reaches {next : Nat → Option Nat} {value : Nat → Option T}
    (h : Reaches Step (State.construct next value node) s) : ∃ chain, Holds s chain := by
  refine h.invariant (I := fun s => ∃ chain, Holds s chain)
    ⟨[], Holds.construct next value node⟩ fun a b ha hab => ?_
  obtain ⟨chain, hchain⟩ := ha
  exact hchain.step hab

/-- The values that have been popped are the first ones that have been pushed, a null pointer is
returned only when all that has been pushed was popped, and no thread can touch a node that was
deleted. -/
theorem values_in_order (next : Nat → Option Nat) (value : Nat → Option T) (node : Nat)
    (s : State T) (h : Reaches Step (State.construct next value node) s) :
    pops s.history <+: pushes s.history ∧
      (∀ earlier, earlier ++ [.returned none] <+: s.history →
        completions earlier = pops earlier) ∧
      (∃ t, s.produce = .ok t) ∧ ∃ t, s.consume = .ok t := by
  obtain ⟨chain, hchain⟩ := holds_of_reaches h
  obtain ⟨produced, hproduced, _⟩ := hchain.produce
  obtain ⟨consumed, hconsumed, _⟩ := hchain.consume
  exact ⟨hchain.pops_prefix, hchain.empty, ⟨produced, hproduced⟩, consumed, hconsumed⟩

theorem values_in_order_one :
    ∃ s : State Nat, pops s.history = [7] ∧ pushes s.history = [7, 8] ∧
      pops s.history <+: pushes s.history ∧
      (∀ earlier, earlier ++ [.returned none] <+: s.history →
        completions earlier = pops earlier) ∧
      (∃ t, s.produce = .ok t) ∧ ∃ t, s.consume = .ok t := by
  have hrun : Reaches Step (State.construct (fun _ => none) (fun _ => (none : Option Nat)) 0) _ :=
    Relation.ReflTransGen.refl
      |>.tail (.consume rfl) |>.tail (.consume rfl)
      |>.tail (.push 7 1 rfl (by decide)) |>.tail (.produce rfl) |>.tail (.produce rfl)
      |>.tail (.consume rfl) |>.tail (.produce rfl) |>.tail (.consume rfl)
      |>.tail (.consume rfl) |>.tail (.consume rfl) |>.tail (.consume rfl)
      |>.tail (.consume rfl) |>.tail (.push 8 2 rfl (by decide)) |>.tail (.consume rfl)
  exact ⟨_, rfl, rfl, values_in_order (fun _ => none) (fun _ => none) 0 _ hrun⟩

theorem destroyFrom_of_linked {l : List Nat} (hlinked : Linked s.next (some node) (node :: l) none)
    (hlive : s.live.Perm (node :: l)) :
    ∃ t, State.destroyFrom (l.length + 1) s node = .ok t ∧ t.live = [] := by
  induction l generalizing s node with
  | nil =>
    have hmem : node ∈ s.live := hlive.mem_iff.mpr List.mem_cons_self
    have hnext : s.next node = none := hlinked.2
    have hempty : s.live.erase node = [] := by
      have herased := hlive.erase node
      simpa using herased
    refine ⟨{ s with live := s.live.erase node }, ?_, hempty⟩
    rw [State.destroyFrom, touch_of_live hmem]
    simp only [bind, Except.bind, hnext]
    rfl
  | cons next l ih =>
    have hmem : node ∈ s.live := hlive.mem_iff.mpr List.mem_cons_self
    have hnext : s.next node = some next := hlinked.2.1
    have herased := hlive.erase node
    rw [List.erase_cons_head] at herased
    obtain ⟨t, ht, hdone⟩ := ih (s := { s with live := s.live.erase node })
      (hnext ▸ hlinked.2) herased
    refine ⟨t, ?_, hdone⟩
    rw [State.destroyFrom, touch_of_live hmem]
    simp only [bind, Except.bind, hnext]
    exact ht

/-- Behind both threads the destructor deletes each node once, and none is left. -/
theorem destroy_of_idle {next : Nat → Option Nat} {value : Nat → Option T}
    (h : Reaches Step (State.construct next value node) s) (hproducer : s.producer = .idle)
    (hconsumer : s.consumer = .idle) : ∃ t, s.destroy = .ok t ∧ t.live = [] := by
  obtain ⟨chain, hchain⟩ := holds_of_reaches h
  have hnodes := hchain.nodes
  rw [hproducer, hconsumer] at hnodes
  simp only [Consumer.retired, Producer.unlinked, List.nil_append, List.append_nil] at hnodes
  rw [State.destroy, hnodes.length_eq, List.length_cons]
  exact destroyFrom_of_linked hchain.linked hnodes

/-- One of two values is taken, and the other one goes with the queue. -/
theorem destroy_of_idle_one : ∃ s t : State Nat, pops s.history = [7] ∧ pushes s.history = [7, 8] ∧
    s.destroy = .ok t ∧ t.live = [] := by
  have hrun : Reaches Step (State.construct (fun _ => none) (fun _ => (none : Option Nat)) 0) _ :=
    Relation.ReflTransGen.refl
      |>.tail (.push 7 1 rfl (by decide)) |>.tail (.produce rfl) |>.tail (.produce rfl)
      |>.tail (.produce rfl) |>.tail (.consume rfl)
      |>.tail (.consume rfl) |>.tail (.consume rfl) |>.tail (.consume rfl)
      |>.tail (.consume rfl) |>.tail (.consume rfl) |>.tail (.consume rfl)
      |>.tail (.push 8 2 rfl (by decide)) |>.tail (.produce rfl) |>.tail (.produce rfl)
      |>.tail (.produce rfl)
  obtain ⟨t, ht, hlive⟩ := destroy_of_idle hrun rfl rfl
  exact ⟨_, t, rfl, rfl, ht, hlive⟩

end XubinhServer.SpscLockFreeQueue

import Cncpp.Queue.LinkedChain
import Cncpp.Queue.NonIntrusive.Core

/-!
# Correctness of the non-intrusive queue

The nodes from `_tail` to `_head` form a chain whose links may be late.  The data
behind the front of the chain are the inputs that have been exchanged and not yet
taken; the front itself is the node that `Dequeue` will delete.  A producer that
is late with its link still has its predecessor in the chain, so it never writes
to a deleted node.
-/

namespace Cncpp.Queue.NonIntrusive

open Cncpp.Transition

variable {P T : Type}

/-- `Next` of every node. -/
def nextOf (heap : Addr → Cell T) (node : Addr) : Option Addr :=
  (heap node).next

/-- `Data` of every node. -/
def dataOf (heap : Addr → Cell T) (node : Addr) : Option T :=
  (heap node).data

/-- The value that a running `Dequeue` has taken but not returned. -/
def Consumer.inFlight : Consumer T → List T
  | .stored _ result => [result]
  | _ => []

/-- What the consumer's local variables say about the queue. -/
def ConsumerOk (heap : Addr → Cell T) (front : Addr) (chain : List Addr) : Consumer T → Prop
  | .idle => True
  | .gotTail tail => tail = front
  | .gotNext tail next => tail = front ∧ nextOf heap tail = some next
  | .gotData tail next result =>
      tail = front ∧ nextOf heap tail = some next ∧ dataOf heap next = some result
  | .stored tail _ => (heap tail).alive = true ∧ tail ∉ chain

/-- The inputs of one producer that have been exchanged. -/
def exchangedBy [DecidableEq P] (state : State P T) (producer : P) : List T :=
  (state.exchanged.filter fun entry => entry.1 = producer).map Prod.snd

/-- The invariant, for the nodes behind the front of the chain. -/
structure Inv [DecidableEq P] (programs : P → List T) (state : State P T)
    (queued : List Addr) : Prop where
  linked : Linked (state.tail :: queued) (nextOf state.heap) state.pending
  head : (state.tail :: queued).getLast? = some state.head
  alive : ∀ node ∈ state.tail :: queued, (state.heap node).alive = true
  values : (state.returned ++ state.consumer.inFlight).map some ++
    queued.map (dataOf state.heap) = state.exchanged.map fun entry => some entry.2
  consumer : ConsumerOk state.heap state.tail (state.tail :: queued) state.consumer
  deleted : ∀ node ∈ state.deletions, (state.heap node).alive = false ∧
    (state.heap node).isFree = false
  once : state.deletions.Nodup
  sound : state.faulted = false
  program : ∀ producer, exchangedBy state producer ++ state.programs producer = programs producer

variable [DecidableEq P] {programs : P → List T}

theorem start_inv (programs : P → List T) (front : Addr) :
    Inv programs (start programs front) [] where
  linked := by
    apply Linked.singleton
    simp [nextOf, start, Cell.next]
  head := rfl
  alive := by
    intro node member
    rw [List.mem_singleton.mp member]
    simp [start, Cell.alive]
  values := rfl
  consumer := trivial
  deleted := by simp [start]
  once := List.nodup_nil
  sound := rfl
  program := by
    intro producer
    rfl

/-! ## Cells -/

theorem alive_of_isFree {cell : Cell T} (free : cell.isFree = true) : cell.alive = false := by
  cases cell with
  | free => rfl
  | node data next => contradiction
  | deleted => rfl

theorem alive_of_next {cell : Cell T} {link : Addr} (next : cell.next = some link) :
    cell.alive = true := by
  cases cell with
  | node data next => rfl
  | free => contradiction
  | deleted => contradiction

theorem alive_of_data {cell : Cell T} {value : T} (data : cell.data = some value) :
    cell.alive = true := by
  cases cell with
  | node data next => rfl
  | free => contradiction
  | deleted => contradiction

@[simp]
theorem alive_setNext (cell : Cell T) (link : Option Addr) :
    (cell.setNext link).alive = cell.alive := by
  cases cell <;> rfl

@[simp]
theorem isFree_setNext (cell : Cell T) (link : Option Addr) :
    (cell.setNext link).isFree = cell.isFree := by
  cases cell <;> rfl

@[simp]
theorem data_setNext (cell : Cell T) (link : Option Addr) :
    (cell.setNext link).data = cell.data := by
  cases cell <;> rfl

theorem next_setNext {cell : Cell T} (alive : cell.alive = true) (link : Option Addr) :
    (cell.setNext link).next = link := by
  cases cell with
  | node data next => rfl
  | free => contradiction
  | deleted => contradiction

/-- A change that keeps links, data and nodes alive does not disturb the consumer. -/
theorem ConsumerOk.transfer {heap other : Addr → Cell T} {front : Addr}
    {chain longer : List Addr} {consumer : Consumer T}
    (ok : ConsumerOk heap front chain consumer)
    (links : ∀ left right, nextOf heap left = some right → nextOf other left = some right)
    (data : ∀ node value, dataOf heap node = some value → dataOf other node = some value)
    (alive : ∀ node, (heap node).alive = true → (other node).alive = true)
    (new : ∀ node ∈ longer, node ∈ chain ∨ (heap node).alive = false) :
    ConsumerOk other front longer consumer := by
  cases consumer with
  | idle => trivial
  | gotTail tail => exact ok
  | gotNext tail next => exact ⟨ok.1, links tail next ok.2⟩
  | gotData tail next result =>
      exact ⟨ok.1, links tail next ok.2.1, data next result ok.2.2⟩
  | stored tail result =>
      refine ⟨alive tail ok.1, fun member => ?_⟩
      rcases new tail member with inside | dead
      · exact ok.2 inside
      · rw [ok.1] at dead
        contradiction

/-- Nodes that stay as they are keep their data. -/
theorem map_dataOf_congr {heap other : Addr → Cell T} {nodes : List Addr}
    (same : ∀ node ∈ nodes, other node = heap node) :
    nodes.map (dataOf other) = nodes.map (dataOf heap) := by
  apply List.map_congr_left
  intro node member
  rw [dataOf, same node member]
  rfl

/-! ## Producers -/

/-- What is alive stays as it is when a new node is made. -/
theorem heap_exchange {state : State P T} {producer : P} {node : Addr} {input : T}
    {rest : List T} (free : (state.heap node).isFree = true) {other : Addr}
    (alive : (state.heap other).alive = true) :
    (exchange state producer node input rest).heap other = state.heap other := by
  apply Function.update_of_ne
  rintro rfl
  rw [alive_of_isFree free] at alive
  contradiction

theorem heap_exchange_self (state : State P T) (producer : P) (node : Addr) (input : T)
    (rest : List T) :
    (exchange state producer node input rest).heap node = .node (some input) none :=
  Function.update_self _ _ _

/-- An exchange moves the first input of the program to the exchanged ones. -/
theorem exchangedBy_exchange {state : State P T} {producer : P} {node : Addr} {input : T}
    {rest : List T} (next : state.programs producer = input :: rest) (other : P) :
    exchangedBy (exchange state producer node input rest) other ++
        (exchange state producer node input rest).programs other =
      exchangedBy state other ++ state.programs other := by
  by_cases own : other = producer
  · subst own
    rw [next]
    simp [exchangedBy, exchange]
  · simp [exchangedBy, exchange, Function.update_of_ne own, Ne.symm own]

/-- The exchange makes the new node the last of the chain. -/
theorem Inv.exchange {state : State P T} {queued : List Addr}
    (inv : Inv programs state queued) {producer : P} {node : Addr} {input : T} {rest : List T}
    (ready : state.pending producer = none) (next : state.programs producer = input :: rest)
    (free : (state.heap node).isFree = true) :
    Inv programs (exchange state producer node input rest) (queued ++ [node]) := by
  have same : ∀ {other}, (state.heap other).alive = true →
      (NonIntrusive.exchange state producer node input rest).heap other = state.heap other :=
    heap_exchange free
  have new := heap_exchange_self state producer node input rest
  have dead := alive_of_isFree free
  have outside : node ∉ state.tail :: queued := by
    intro member
    rw [inv.alive node member] at dead
    contradiction
  constructor
  · apply Linked.append (inv.linked.congr _) inv.head outside _ ready
    · intro other member
      rw [nextOf, same (inv.alive other member)]
      rfl
    · rw [nextOf, new]
      rfl
  · rw [← List.cons_append]
    exact List.getLast?_concat
  · intro other member
    rw [← List.cons_append] at member
    rcases List.mem_append.mp member with old | last
    · rw [same (inv.alive other old)]
      exact inv.alive other old
    · rw [List.mem_singleton.mp last, new]
      rfl
  · have kept : queued.map (dataOf (NonIntrusive.exchange state producer node input rest).heap) =
        queued.map (dataOf state.heap) :=
      map_dataOf_congr fun other member =>
        same (inv.alive other (List.mem_cons_of_mem _ member))
    have added : dataOf (NonIntrusive.exchange state producer node input rest).heap node =
        some input := by
      rw [dataOf, new]
      rfl
    have appended : (queued ++ [node]).map
        (dataOf (NonIntrusive.exchange state producer node input rest).heap) =
        queued.map (dataOf state.heap) ++ [some input] := by
      rw [List.map_append, kept, List.map_singleton, added]
    rw [appended, ← List.append_assoc]
    change (state.returned ++ state.consumer.inFlight).map some ++ _ ++ _ =
      (state.exchanged ++ [(producer, input)]).map fun entry => some entry.2
    rw [inv.values, List.map_append]
    rfl
  · apply inv.consumer.transfer
    · intro left right stored
      rw [nextOf, same (alive_of_next stored)]
      exact stored
    · intro other value stored
      rw [dataOf, same (alive_of_data stored)]
      exact stored
    · intro other alive
      rw [same alive]
      exact alive
    · intro other member
      rw [← List.cons_append] at member
      rcases List.mem_append.mp member with old | last
      · exact Or.inl old
      · rw [List.mem_singleton.mp last]
        exact Or.inr dead
  · intro other member
    have old := inv.deleted other member
    have apart : other ≠ node := by
      rintro rfl
      rw [old.2] at free
      contradiction
    have kept : (NonIntrusive.exchange state producer node input rest).heap other =
        state.heap other := Function.update_of_ne apart _ _
    rw [kept]
    exact old
  · exact inv.once
  · exact inv.sound
  · intro other
    rw [exchangedBy_exchange next]
    exact inv.program other

/-- Whatever does not depend on `Next` is not changed by storing a link. -/
theorem observe_storeNext {α : Type} {observe : Cell T → α}
    (blind : ∀ cell link, observe (cell.setNext link) = observe cell) (state : State P T)
    (producer : P) (prevHead node other : Addr) :
    observe ((storeNext state producer prevHead node).heap other) =
      observe (state.heap other) := by
  by_cases same : other = prevHead
  · have there : (storeNext state producer prevHead node).heap prevHead =
        (state.heap prevHead).setNext (some node) := Function.update_self _ _ _
    rw [same, there, blind]
  · have kept : (storeNext state producer prevHead node).heap other = state.heap other :=
      Function.update_of_ne same _ _
    rw [kept]

theorem nextOf_storeNext {state : State P T} {prevHead : Addr}
    (alive : (state.heap prevHead).alive = true) (producer : P) (node : Addr) :
    nextOf (storeNext state producer prevHead node).heap =
      Function.update (nextOf state.heap) prevHead (some node) := by
  funext other
  by_cases same : other = prevHead
  · have there : (storeNext state producer prevHead node).heap prevHead =
        (state.heap prevHead).setNext (some node) := Function.update_self _ _ _
    rw [nextOf, same, there, next_setNext alive, Function.update_self]
  · have kept : (storeNext state producer prevHead node).heap other = state.heap other :=
      Function.update_of_ne same _ _
    rw [nextOf, kept, Function.update_of_ne same]
    rfl

/-- The late link is stored into a node of the chain. -/
theorem Inv.storeNext {state : State P T} {queued : List Addr}
    (inv : Inv programs state queued) {producer : P} {prevHead node : Addr}
    (late : state.pending producer = some (prevHead, node)) :
    Inv programs (storeNext state producer prevHead node) queued := by
  obtain ⟨gap, unlinked⟩ := inv.linked.pending_adjacent producer prevHead node late
  have aliveThere := inv.alive prevHead gap.left_mem
  have alive := observe_storeNext alive_setNext state producer prevHead node
  have isFree := observe_storeNext isFree_setNext state producer prevHead node
  have data : dataOf (NonIntrusive.storeNext state producer prevHead node).heap =
      dataOf state.heap := funext (observe_storeNext data_setNext state producer prevHead node)
  have links := nextOf_storeNext aliveThere producer node
  constructor
  · rw [links]
    exact inv.linked.store late
  · exact inv.head
  · intro other member
    rw [alive]
    exact inv.alive other member
  · rw [data]
    exact inv.values
  · apply inv.consumer.transfer
    · intro left right stored
      rw [links]
      have different : left ≠ prevHead := by
        rintro rfl
        rw [unlinked] at stored
        contradiction
      rw [Function.update_of_ne different]
      exact stored
    · intro other value stored
      rw [data]
      exact stored
    · intro other aliveBefore
      rw [alive]
      exact aliveBefore
    · intro other member
      exact Or.inl member
  · intro other member
    rw [alive, isFree]
    exact inv.deleted other member
  · exact inv.once
  · change (state.faulted || !(state.heap prevHead).alive) = false
    rw [inv.sound, aliveThere]
    rfl
  · exact inv.program

/-- The inputs that are still to be enqueued do not concern the queue. -/
theorem Inv.reprogram {total after : P → List T} {state : State P T} {queued : List Addr}
    (inv : Inv programs state queued)
    (sums : ∀ producer, exchangedBy state producer ++ after producer = total producer) :
    Inv total { state with programs := after } queued :=
  { inv with program := sums }

/-! ## The consumer -/

/-- The data of a queued node is one of the inputs. -/
theorem Inv.data_queued {state : State P T} {queued : List Addr}
    (inv : Inv programs state queued) {node : Addr} (member : node ∈ queued) :
    ∃ value, dataOf state.heap node = some value := by
  have listed : dataOf state.heap node ∈ state.exchanged.map fun entry => some entry.2 := by
    rw [← inv.values]
    exact List.mem_append_right _ (List.mem_map_of_mem member)
  obtain ⟨entry, _, same⟩ := List.mem_map.mp listed
  exact ⟨entry.2, same.symm⟩

omit [DecidableEq P] in
/-- Using a node that is alive changes nothing. -/
theorem access_of_alive {state : State P T} {node : Addr}
    (alive : (state.heap node).alive = true) : access state node = state := by
  rw [access, alive, Bool.not_true, Bool.or_false]

/-- Only the position of the consumer changes, and no value is in flight. -/
theorem Inv.move {state : State P T} {queued : List Addr} (inv : Inv programs state queued)
    {position : Consumer T} (empty : state.consumer.inFlight = position.inFlight)
    (ok : ConsumerOk state.heap state.tail (state.tail :: queued) position) :
    Inv programs { state with consumer := position } queued where
  linked := inv.linked
  head := inv.head
  alive := inv.alive
  values := by
    rw [← inv.values, empty]
  consumer := ok
  deleted := inv.deleted
  once := inv.once
  sound := inv.sound
  program := inv.program

/-- The old front leaves the chain when `_tail` is stored. -/
theorem Inv.storeTail {state : State P T} {queued : List Addr}
    (inv : Inv programs state queued) {tail next : Addr} {result : T}
    (position : state.consumer = .gotData tail next result) :
    ∃ rest, Inv programs { state with tail := next, consumer := .stored tail result } rest := by
  have ok := inv.consumer
  rw [position] at ok
  rcases ok with ⟨rfl, stored, data⟩
  obtain ⟨first, popped⟩ := inv.linked.pop stored
  obtain ⟨rest, rfl⟩ : ∃ rest, queued = next :: rest := by
    cases queued with
    | nil => contradiction
    | cons node rest =>
        cases first
        exact ⟨rest, rfl⟩
  refine ⟨rest, ?_⟩
  have values := inv.values
  rw [position, List.map_cons, data] at values
  exact
    { linked := popped
      head := inv.head
      alive := fun node member => inv.alive node (List.mem_cons_of_mem _ member)
      values := by
        rw [← values]
        simp [Consumer.inFlight]
      consumer := ⟨inv.alive _ List.mem_cons_self, (List.nodup_cons.mp inv.linked.nodup).1⟩
      deleted := inv.deleted
      once := inv.once
      sound := inv.sound
      program := inv.program }

/-- The node that is deleted is alive and not in the chain. -/
theorem Inv.deleteTail {state : State P T} {queued : List Addr}
    (inv : Inv programs state queued) {tail : Addr} {result : T}
    (position : state.consumer = .stored tail result) :
    Inv programs (deleteTail state tail result) queued := by
  have ok := inv.consumer
  rw [position] at ok
  rcases ok with ⟨aliveThere, outside⟩
  have chain : ∀ {other}, other ∈ state.tail :: queued →
      (NonIntrusive.deleteTail state tail result).heap other = state.heap other := by
    intro other member
    apply Function.update_of_ne
    rintro rfl
    exact outside member
  have there : (NonIntrusive.deleteTail state tail result).heap tail = .deleted :=
    Function.update_self _ _ _
  have values := inv.values
  rw [position] at values
  constructor
  · apply inv.linked.congr
    intro other member
    rw [nextOf, chain member]
    rfl
  · exact inv.head
  · intro other member
    rw [chain member]
    exact inv.alive other member
  · have kept : queued.map (dataOf (NonIntrusive.deleteTail state tail result).heap) =
        queued.map (dataOf state.heap) :=
      map_dataOf_congr fun other member => chain (List.mem_cons_of_mem _ member)
    rw [kept]
    change (state.returned ++ [result] ++ []).map some ++ _ = _
    rw [List.append_nil]
    exact values
  · trivial
  · intro other member
    rcases List.mem_append.mp member with old | last
    · by_cases same : other = tail
      · rw [same, there]
        exact ⟨rfl, rfl⟩
      · have kept : (NonIntrusive.deleteTail state tail result).heap other = state.heap other :=
          Function.update_of_ne same _ _
        rw [kept]
        exact inv.deleted other old
    · rw [List.mem_singleton.mp last, there]
      exact ⟨rfl, rfl⟩
  · change (state.deletions ++ [tail]).Nodup
    rw [List.nodup_append]
    refine ⟨inv.once, List.nodup_singleton tail, ?_⟩
    rintro other member _ last rfl
    have dead := (inv.deleted other member).1
    rw [List.mem_singleton.mp last, aliveThere] at dead
    contradiction
  · change (state.faulted || !(state.heap tail).alive) = false
    rw [inv.sound, aliveThere]
    rfl
  · exact inv.program

/-- Every step of the consumer keeps the invariant. -/
theorem Inv.consume {state : State P T} {queued : List Addr}
    (inv : Inv programs state queued) :
    ∃ rest, Inv programs (consume state) rest := by
  have ok := inv.consumer
  cases position : state.consumer with
  | idle =>
      rw [NonIntrusive.consume, position]
      exact ⟨queued, inv.move (by rw [position]; rfl) rfl⟩
  | gotTail tail =>
      rw [position] at ok
      cases ok
      have aliveThere := inv.alive state.tail List.mem_cons_self
      cases stored : (state.heap state.tail).next with
      | none =>
          simp only [NonIntrusive.consume, position, stored, access_of_alive aliveThere]
          exact ⟨queued, inv.move (by rw [position]; rfl) trivial⟩
      | some next =>
          simp only [NonIntrusive.consume, position, stored, access_of_alive aliveThere]
          exact ⟨queued, inv.move (by rw [position]; rfl) ⟨rfl, stored⟩⟩
  | gotNext tail next =>
      rw [position] at ok
      rcases ok with ⟨rfl, stored⟩
      have member := List.mem_of_head? (inv.linked.pop stored).1
      obtain ⟨value, data⟩ := inv.data_queued member
      have aliveThere := inv.alive next (List.mem_cons_of_mem _ member)
      have read : (state.heap next).data = some value := data
      simp only [NonIntrusive.consume, position, read, access_of_alive aliveThere]
      exact ⟨queued, inv.move (by rw [position]; rfl) ⟨rfl, stored, data⟩⟩
  | gotData tail next result =>
      rw [NonIntrusive.consume, position]
      exact inv.storeTail position
  | stored tail result =>
      rw [NonIntrusive.consume, position]
      exact ⟨queued, inv.deleteTail position⟩

/-! ## Runs -/

/-- Every step of every thread keeps the invariant. -/
theorem step_inv {state next : State P T} {act : Action P}
    (inv : ∃ queued, Inv programs state queued) (stepped : step state act = some next) :
    ∃ queued, Inv programs next queued := by
  rcases inv with ⟨queued, inv⟩
  cases act with
  | exchange producer node =>
      simp only [step] at stepped
      split at stepped
      · rename_i input rest ready program
        split at stepped
        · rename_i free
          cases stepped
          exact ⟨_, inv.exchange ready program free⟩
        · contradiction
      · contradiction
  | store producer =>
      simp only [step, Option.map_eq_some_iff] at stepped
      obtain ⟨⟨prevHead, node⟩, late, rfl⟩ := stepped
      exact ⟨queued, inv.storeNext late⟩
  | consume =>
      cases stepped
      exact inv.consume

/-- What is promised about the queue in every state. -/
structure Safe (programs : P → List T) (state : State P T) : Prop where
  /-- The values returned are the first inputs in the order of the exchanges. -/
  order : state.returned <+: state.exchanged.map Prod.snd
  /-- The exchanges of a producer are the first inputs of its program. -/
  producer : ∀ producer, exchangedBy state producer <+: programs producer
  /-- No deleted node has been accessed. -/
  sound : state.faulted = false
  /-- No node has been deleted twice. -/
  once : state.deletions.Nodup
  /-- Where `Dequeue` is about to find no link, everything exchanged has been returned
  or the link to the next value has not been stored. -/
  empty : ∀ tail, state.consumer = .gotTail tail → nextOf state.heap tail = none →
    state.returned.length = state.exchanged.length ∨
      ∃ producer node entry, state.pending producer = some (tail, node) ∧
        dataOf state.heap node = some entry.2 ∧
        state.exchanged[state.returned.length]? = some entry

theorem Inv.safe {state : State P T} {queued : List Addr} (inv : Inv programs state queued) :
    Safe programs state where
  order := by
    apply (List.prefix_map_iff_of_injective fun _ _ same => Option.some.inj same).mp
    refine ⟨state.consumer.inFlight.map some ++ queued.map (dataOf state.heap), ?_⟩
    rw [← List.append_assoc, ← List.map_append, inv.values, List.map_map]
    rfl
  producer := by
    intro producer
    exact ⟨state.programs producer, inv.program producer⟩
  sound := inv.sound
  once := inv.once
  empty := by
    intro tail position unlinked
    have ok := inv.consumer
    have values := inv.values
    rw [position] at ok values
    cases ok
    change (state.returned ++ []).map some ++ _ = _ at values
    rw [List.append_nil] at values
    rcases inv.linked.front_unlinked unlinked with rfl | ⟨next, rest, producer, rfl, late⟩
    · left
      simpa using congrArg List.length values
    · right
      have listed := congrArg (fun inputs => inputs[state.returned.length]?) values
      simp only [List.map_cons, List.getElem?_map] at listed
      rw [List.getElem?_append_right (by simp)] at listed
      simp only [List.length_map, Nat.sub_self, List.getElem?_cons_zero] at listed
      obtain ⟨entry, found, same⟩ := Option.map_eq_some_iff.mp listed.symm
      exact ⟨producer, next, entry, late, same.symm, found⟩

/-- Whatever the producers, their programs and the interleaving, the queue is safe in
every state of every run. -/
theorem run_safe (programs : P → List T) (front : Addr) {acts : List (Action P)}
    {state : State P T} (run : exec step (start programs front) acts = some state) :
    Safe programs state := by
  have preserved : ∀ ⦃state act next⦄, (∃ queued, Inv programs state queued) →
      step state act = some next → ∃ queued, Inv programs next queued :=
    fun _ _ _ => step_inv
  obtain ⟨queued, inv⟩ := invariant_exec preserved ⟨[], start_inv programs front⟩ run
  exact inv.safe

/-- One producer with two inputs and one with a single input. -/
def twoPrograms : Bool → List Nat
  | false => [10, 11]
  | true => [20]

/-- The second producer appends behind a link that is still late. -/
def lateLink : List (Action Bool) :=
  [.exchange false 1, .exchange true 2, .store true, .consume, .consume, .store false,
    .exchange false 3, .consume, .consume, .consume, .consume, .consume, .store false]

/-- The safety theorem at this run. -/
theorem lateLink_safe :
    ∃ state, exec step (start twoPrograms 0) lateLink = some state ∧
      state.returned = [10] ∧ Safe twoPrograms state := by
  have run : ∃ state, exec step (start twoPrograms 0) lateLink = some state ∧
      state.returned = [10] := ⟨_, rfl, rfl⟩
  obtain ⟨state, returned, values⟩ := run
  exact ⟨state, returned, values, run_safe twoPrograms 0 returned⟩

end Cncpp.Queue.NonIntrusive

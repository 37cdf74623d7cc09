import Cncpp.Loop.Bounded
import Cncpp.Queue.NonIntrusive.Sequential
import Mathlib.Data.List.Perm.Subperm

/-!
# Destroying the queue

The destructor dequeues until `Dequeue` returns false, deletes the values it gets, and
deletes the node that `_head` points to.  It runs when no thread is inside of `Dequeue`.  If
an `Enqueue` is between its two steps, the chain ends early for the destructor, and it frees
what it reaches and the last node.

Which nodes have entered the queue is read off the steps of a run.  A node that is allocated
and not exchanged yet belongs to the thread inside of `Enqueue`, and the destructor does not
know it.
-/

namespace Cncpp.Queue.NonIntrusive

open Cncpp.Loop
open Cncpp.Transition

variable {P T : Type}

/-- The node that a step brings into the queue. -/
def Action.enters : Action P → Option Addr
  | .exchange _ node => some node
  | _ => none

/-- The node of the constructor, and the nodes that have been exchanged in a run. -/
def entered (front : Addr) (acts : List (Action P)) : List Addr :=
  front :: acts.filterMap Action.enters

/-- One pass of the loop of the destructor, with the values that have been deleted. -/
def destroyPass (state : State P T × List T) : Pass (State P T × List T) (State P T × List T) :=
  match dequeue state.1 with
  | (some output, rest) => .again (rest, state.2 ++ [output])
  | (none, rest) => .leave (rest, state.2)

/-- `delete front`, where `front` is the value of `_head`. -/
def deleteFront (queue : State P T) : State P T :=
  { access queue queue.head with
    heap := Function.update queue.heap queue.head .deleted
    deletions := queue.deletions ++ [queue.head] }

/-- `~MPSCQueueNonIntrusive`, with the values that it deletes. -/
def destroy (fuel : Nat) (queue : State P T) : Option (State P T × List T) :=
  (run destroyPass fuel (queue, [])).map fun final => (deleteFront final.1, final.2)

/-! ## The ledger -/

/-- The nodes that have entered the queue, against the calls that exchange and delete. -/
structure Ledger (nodes : List Addr) (state : State P T) : Prop where
  used : ∀ node, (state.heap node).isFree = false ↔ node ∈ nodes
  once : nodes.Nodup
  entries : nodes.length = state.exchanged.length + 1
  deletions : state.deletions.length = state.returned.length

theorem start_ledger (programs : P → List T) (front : Addr) :
    Ledger [front] (start programs front) where
  used node := by
    rw [List.mem_singleton, start]
    by_cases same : node = front <;> simp [same, Cell.isFree]
  once := List.nodup_singleton front
  entries := rfl
  deletions := rfl

theorem isFree_of_alive {cell : Cell T} (alive : cell.alive = true) : cell.isFree = false := by
  cases cell with
  | node data next => rfl
  | free => contradiction
  | deleted => contradiction

section Consume

variable [DecidableEq P] {programs : P → List T} {nodes : List Addr} {state : State P T}

omit [DecidableEq P] in
/-- A node that is alive stays in use when it is deleted. -/
theorem Ledger.deleteTail (ledger : Ledger nodes state) {tail : Addr} {result : T}
    (alive : (state.heap tail).alive = true) : Ledger nodes (deleteTail state tail result) where
  used node := by
    rw [← ledger.used node]
    by_cases same : node = tail
    · subst same
      refine iff_of_true ?_ (isFree_of_alive alive)
      simp only [NonIntrusive.deleteTail, Function.update_self]
      rfl
    · simp only [NonIntrusive.deleteTail, Function.update_of_ne same]
  once := ledger.once
  entries := ledger.entries
  deletions := by
    simp only [NonIntrusive.deleteTail, List.length_append, List.length_singleton,
      ledger.deletions]

/-- The invariant of the queue with the ledger. -/
def Kept (programs : P → List T) (nodes : List Addr) (state : State P T) : Prop :=
  (∃ queued, Inv programs state queued) ∧ Ledger nodes state

theorem Kept.consume (kept : Kept programs nodes state) : Kept programs nodes (consume state) := by
  obtain ⟨⟨queued, inv⟩, ledger⟩ := kept
  refine ⟨inv.consume, ?_⟩
  have ok := inv.consumer
  cases position : state.consumer with
  | idle =>
      rw [NonIntrusive.consume, position]
      exact ⟨ledger.used, ledger.once, ledger.entries, ledger.deletions⟩
  | gotTail tail =>
      cases stored : (state.heap tail).next <;>
        simp only [NonIntrusive.consume, position, stored] <;>
        exact ⟨ledger.used, ledger.once, ledger.entries, ledger.deletions⟩
  | gotNext tail next =>
      cases read : (state.heap next).data <;> simp only [NonIntrusive.consume, position, read] <;>
        exact ⟨ledger.used, ledger.once, ledger.entries, ledger.deletions⟩
  | gotData tail next result =>
      rw [NonIntrusive.consume, position]
      exact ⟨ledger.used, ledger.once, ledger.entries, ledger.deletions⟩
  | stored tail result =>
      rw [position] at ok
      rw [NonIntrusive.consume, position]
      exact ledger.deleteTail ok.1

/-- Every step keeps the ledger of the nodes that have entered the queue until then. -/
theorem step_kept {next : State P T} {act : Action P} (kept : Kept programs nodes state)
    (stepped : step state act = some next) :
    Kept programs (nodes ++ act.enters.toList) next := by
  refine ⟨step_inv kept.1 stepped, ?_⟩
  have ledger := kept.2
  cases act with
  | exchange producer node =>
      simp only [step] at stepped
      split at stepped
      case h_1 input rest _ _ =>
        rw [Option.ite_none_right_eq_some, Option.some.injEq] at stepped
        obtain ⟨free, rfl⟩ := stepped
        refine ⟨fun other => ?_, ?_, ?_, ledger.deletions⟩
        · rw [Action.enters, Option.toList_some, List.mem_append, List.mem_singleton,
            ← ledger.used other]
          by_cases same : other = node
          · subst same
            rw [heap_exchange_self]
            simp [Cell.isFree]
          · simp [exchange, same]
        · rw [Action.enters, Option.toList_some, List.nodup_append]
          refine ⟨ledger.once, List.nodup_singleton node, ?_⟩
          rintro other member _ last rfl
          obtain rfl := List.mem_singleton.mp last
          rw [(ledger.used other).mpr member] at free
          contradiction
        · simp [Action.enters, exchange, ledger.entries]
      case h_2 => contradiction
  | store producer =>
      simp only [step, Option.map_eq_some_iff] at stepped
      obtain ⟨⟨prevHead, node⟩, late, rfl⟩ := stepped
      change Ledger (nodes ++ []) _
      rw [List.append_nil]
      refine ⟨fun other => ?_, ledger.once, ledger.entries, ledger.deletions⟩
      rw [observe_storeNext isFree_setNext]
      exact ledger.used other
  | consume =>
      cases stepped
      change Ledger (nodes ++ []) _
      rw [List.append_nil]
      exact kept.consume.2

theorem exec_kept {acts : List (Action P)} {final : State P T} (kept : Kept programs nodes state)
    (run : exec step state acts = some final) :
    Kept programs (nodes ++ acts.filterMap Action.enters) final := by
  induction acts generalizing state nodes with
  | nil =>
      cases run
      rwa [List.filterMap_nil, List.append_nil]
  | cons act acts ih =>
      obtain ⟨next, first, rest⟩ := (exec_cons_eq_some_iff step state final act acts).mp run
      have later := ih (step_kept kept first) rest
      rw [List.append_assoc] at later
      rw [List.filterMap_cons]
      cases made : act.enters <;> simpa [made] using later

end Consume

/-! ## The destructor -/

section Destroy

variable [DecidableEq P] {programs : P → List T} {nodes : List Addr}

/-- A call of `Dequeue` where no other thread dequeues: it returns false and leaves the queue
as it is, or returns a value and deletes a node. -/
theorem dequeue_cases {queue : State P T} (kept : Kept programs nodes queue)
    (idle : queue.consumer = .idle) :
    (nextOf queue.heap queue.tail = none ∧ dequeue queue = (none, queue)) ∨
      ∃ value after, dequeue queue = (some value, after) ∧ Kept programs nodes after ∧
        after.consumer = .idle ∧ after.pending = queue.pending ∧
        after.returned = queue.returned ++ [value] ∧ after.exchanged = queue.exchanged := by
  obtain ⟨queued, inv⟩ := kept.1
  have alive := inv.alive queue.tail List.mem_cons_self
  cases link : nextOf queue.heap queue.tail with
  | none =>
      have unlinked : (queue.heap queue.tail).next = none := link
      have loaded : consume (consume queue) = queue := by
        simp only [consume, idle, unlinked, access, alive, Bool.not_true, Bool.or_false]
        rw [← idle]
      refine Or.inl ⟨rfl, ?_⟩
      simp only [dequeue, loaded, idle]
  | some node =>
      obtain ⟨value, data⟩ := inv.data_queued (List.mem_of_head? (inv.linked.pop link).1)
      obtain ⟨after, result, steps, rest⟩ := dequeue_of_link idle alive link data
      refine Or.inr ⟨value, after, result, ?_, rest⟩
      rw [steps]
      exact kept.consume.consume.consume.consume.consume

/-- Before a pass of the destructor's loop, for the queue that is destroyed. -/
structure Draining (programs : P → List T) (nodes : List Addr) (queue : State P T)
    (state : State P T × List T) : Prop where
  kept : Kept programs nodes state.1
  idle : state.1.consumer = .idle
  pending : state.1.pending = queue.pending
  returned : state.1.returned = queue.returned ++ state.2
  exchanged : state.1.exchanged = queue.exchanged

omit [DecidableEq P] in
/-- What has been returned has been exchanged before, and what has not is still queued. -/
theorem Inv.length_queued [DecidableEq P] {state : State P T} {queued : List Addr}
    (inv : Inv programs state queued) (idle : state.consumer = .idle) :
    state.returned.length + queued.length = state.exchanged.length := by
  have values := congrArg List.length inv.values
  rw [idle] at values
  simpa [Consumer.inFlight] using values

/-- Every pass takes a value, until there is no link. -/
theorem destroy_drains {queue : State P T} (kept : Kept programs nodes queue)
    (idle : queue.consumer = .idle) :
    ∃ final, run destroyPass (queue.exchanged.length + 1) (queue, []) = some final ∧
      Draining programs nodes queue final ∧ nextOf final.1.heap final.1.tail = none := by
  refine @run_total _ _ destroyPass (Draining programs nodes queue) _
    (fun state => queue.exchanged.length - state.1.returned.length) ?_ _ _
    ⟨kept, idle, rfl, (List.append_nil _).symm, rfl⟩ (Nat.lt_succ_of_le (Nat.sub_le _ _))
  rintro ⟨state, freed⟩ draining
  rcases dequeue_cases draining.kept draining.idle with
    ⟨unlinked, same⟩ | ⟨value, after, taken, keptAfter, idleAfter, pending, returned, exchanged⟩
  · simp only [destroyPass, same, Pass.meets_leave]
    exact ⟨draining, unlinked⟩
  · simp only [destroyPass, taken, Pass.meets_again]
    have drained : Draining programs nodes queue (after, freed ++ [value]) :=
      ⟨keptAfter, idleAfter, pending.trans draining.pending,
        by rw [returned, draining.returned, List.append_assoc], exchanged.trans draining.exchanged⟩
    refine ⟨drained, ?_⟩
    obtain ⟨queued, inv⟩ := keptAfter.1
    have bound := inv.length_queued idleAfter
    rw [exchanged, draining.exchanged, returned, List.length_append, List.length_singleton] at bound
    change state.returned.length + 1 + queued.length = queue.exchanged.length at bound
    rw [returned, List.length_append, List.length_singleton]
    change queue.exchanged.length - (state.returned.length + 1) <
      queue.exchanged.length - state.returned.length
    omega

/-- What the destructor achieves. -/
structure Frees (front : Addr) (acts : List (Action P)) (queue : State P T)
    (result : State P T × List T) : Prop where
  /-- No deleted node is accessed. -/
  sound : result.1.faulted = false
  /-- No node is deleted twice. -/
  once : result.1.deletions.Nodup
  /-- The values that are deleted are the next ones in the order of the exchanges. -/
  values : queue.returned ++ result.2 <+: queue.exchanged.map Prod.snd
  /-- All nodes that have entered the queue are deleted exactly if no `Enqueue` is between its
  exchange and its store. -/
  nodes : result.1.deletions.Perm (entered front acts) ↔
    ∀ producer, queue.pending producer = none
  /-- All values are returned or deleted exactly then, too. -/
  complete : queue.returned ++ result.2 = queue.exchanged.map Prod.snd ↔
    ∀ producer, queue.pending producer = none

/-- Where the front has no link, it is the only node exactly if no link is late. -/
theorem Inv.queued_nil_iff {state : State P T} {queued : List Addr}
    (inv : Inv programs state queued) (unlinked : nextOf state.heap state.tail = none) :
    queued = [] ↔ ∀ producer, state.pending producer = none := by
  constructor
  · rintro rfl producer
    by_contra late
    obtain ⟨⟨left, right⟩, late⟩ := Option.ne_none_iff_exists'.mp late
    exact not_adjacent_singleton (inv.linked.pending_adjacent producer left right late).1
  · intro ready
    rcases inv.linked.front_unlinked unlinked with vacant | ⟨_, _, producer, _, late⟩
    · exact vacant
    · rw [ready producer] at late
      contradiction

/-- The last node is alive when it is deleted. -/
theorem Inv.deleteFront_sound {state : State P T} {queued : List Addr}
    (inv : Inv programs state queued) :
    (deleteFront state).faulted = false ∧ (deleteFront state).deletions.Nodup := by
  have alive := inv.alive state.head (List.mem_of_getLast? inv.head)
  constructor
  · simp only [deleteFront, access, inv.sound, alive, Bool.not_true, Bool.or_false]
  · refine List.nodup_append.mpr ⟨inv.once, List.nodup_singleton _, ?_⟩
    rintro other member _ last rfl
    have dead := (inv.deleted other member).1
    rw [List.mem_singleton.mp last, alive] at dead
    contradiction

/-- What is deleted has entered the queue. -/
theorem Kept.deleteFront_subset {state : State P T} (kept : Kept programs nodes state) :
    (deleteFront state).deletions ⊆ nodes := by
  obtain ⟨⟨queued, inv⟩, ledger⟩ := kept
  intro node member
  rcases List.mem_append.mp member with earlier | last
  · exact (ledger.used node).mp (inv.deleted node earlier).2
  · rw [List.mem_singleton.mp last]
    have alive := inv.alive state.head (List.mem_of_getLast? inv.head)
    exact (ledger.used state.head).mp (isFree_of_alive alive)

/-- In every state of every run in which no thread is inside of `Dequeue`, the destructor ends
without a fault.  It frees every node that has entered the queue if and only if no `Enqueue`
is between its exchange and its store. -/
theorem destroy_frees (programs : P → List T) (front : Addr) {acts : List (Action P)}
    {queue : State P T} (run : exec step (start programs front) acts = some queue)
    (idle : queue.consumer = .idle) :
    ∃ result, destroy (queue.exchanged.length + 1) queue = some result ∧
      Frees front acts queue result := by
  have kept : Kept programs (entered front acts) queue :=
    exec_kept ⟨⟨[], start_inv programs front⟩, start_ledger programs front⟩ run
  obtain ⟨final, ran, draining, unlinked⟩ := destroy_drains kept idle
  refine ⟨(deleteFront final.1, final.2), by rw [destroy, ran]; rfl, ?_⟩
  obtain ⟨queued, inv⟩ := draining.kept.1
  have count := inv.length_queued draining.idle
  have ready := inv.queued_nil_iff unlinked
  have order := inv.safe.order
  rw [draining.exchanged] at count order
  rw [draining.returned] at order
  rw [draining.pending] at ready
  have everything : queued = [] ↔ final.1.returned.length = queue.exchanged.length := by
    rw [← List.length_eq_zero_iff]
    exact ⟨fun vacant => by omega, fun all => by omega⟩
  obtain ⟨sound, once⟩ := inv.deleteFront_sound
  refine ⟨sound, once, order, ?_, ?_⟩
  · have deletions : (deleteFront final.1).deletions.length = final.1.returned.length + 1 := by
      rw [← draining.kept.2.deletions]
      exact List.length_append
    have entries := draining.kept.2.entries
    rw [draining.exchanged] at entries
    change (deleteFront final.1).deletions.Perm _ ↔ _
    rw [← ready, everything]
    constructor
    · intro all
      have lengths := all.length_eq
      omega
    · intro all
      refine (List.subperm_of_subset once draining.kept.deleteFront_subset).perm_of_length_le ?_
      omega
  · rw [← ready, everything]
    constructor
    · intro all
      rw [draining.returned, all, List.length_map]
    · intro all
      apply order.eq_of_length
      rw [List.length_map, ← all, draining.returned]

/-- The theorem at the run with a late link, which is stored in the end. -/
theorem lateLink_destroy :
    ∃ queue, exec step (start twoPrograms 0) lateLink = some queue ∧
      ∃ result, destroy (queue.exchanged.length + 1) queue = some result ∧
        Frees 0 lateLink queue result := by
  have run : ∃ queue, exec step (start twoPrograms 0) lateLink = some queue ∧
      queue.consumer = .idle := ⟨_, rfl, rfl⟩
  obtain ⟨queue, returned, idle⟩ := run
  exact ⟨queue, returned, destroy_frees twoPrograms 0 returned idle⟩

end Destroy

end Cncpp.Queue.NonIntrusive

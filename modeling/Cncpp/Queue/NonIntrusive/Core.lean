import Cncpp.Transition.Run
import Mathlib.Logic.Function.Basic

/-!
# The non-intrusive queue

`MPSCQueueNonIntrusive` with its atomic steps, any number of producers and one
consumer.  `Enqueue` exchanges `_head` and later stores the link from the
previous head; `Dequeue` loads `_tail`, loads its `Next`, reads the data, stores
`_tail` and deletes the old node.  The steps of different threads interleave
freely.

A node is named by its allocation, so a name is not used again after `delete`.  Until it
is exchanged, a node is known to its producer alone, and it is not part of the state: `new
Node(input)` has no step of its own.
An access to a node that is not alive has no defined result; the model records
the fault and lets the run go on.
-/

namespace Cncpp.Queue.NonIntrusive

open Cncpp.Transition

/-- The name of a node. -/
abbrev Addr := Nat

/-- What stands at a name.  The data of a node is uninitialised until it is set. -/
inductive Cell (T : Type) where
  | free
  | node (data : Option T) (next : Option Addr)
  | deleted

namespace Cell

variable {T : Type}

/-- `Data`. -/
def data : Cell T → Option T
  | node data _ => data
  | _ => none

/-- `Next`. -/
def next : Cell T → Option Addr
  | node _ next => next
  | _ => none

/-- The node has been allocated and not deleted. -/
def alive : Cell T → Bool
  | node _ _ => true
  | _ => false

/-- The name has not been used. -/
def isFree : Cell T → Bool
  | free => true
  | _ => false

/-- Store to `Next`. -/
def setNext (link : Option Addr) : Cell T → Cell T
  | node data _ => node data link
  | cell => cell

end Cell

/-- Where the consumer stands in `Dequeue`. -/
inductive Consumer (T : Type) where
  | idle
  /-- After loading `_tail`. -/
  | gotTail (tail : Addr)
  /-- After loading a link from `tail->Next`. -/
  | gotNext (tail next : Addr)
  /-- After reading `next->Data` into `result`. -/
  | gotData (tail next : Addr) (result : T)
  /-- After storing `_tail`. -/
  | stored (tail : Addr) (result : T)

/-- The queue, the threads that use it, and the history of the run. -/
structure State (P T : Type) where
  heap : Addr → Cell T
  head : Addr
  tail : Addr
  /-- The inputs that each producer has still to enqueue. -/
  programs : P → List T
  /-- The previous head and the new node of an `Enqueue` between its two steps. -/
  pending : P → Option (Addr × Addr)
  consumer : Consumer T
  /-- History: the inputs in the order of their exchanges. -/
  exchanged : List (P × T)
  /-- History: the values that `Dequeue` has returned. -/
  returned : List T
  /-- History: the nodes passed to `delete`. -/
  deletions : List Addr
  /-- History: a node that was not alive has been accessed. -/
  faulted : Bool

/-- The next step of a producer, or of the consumer. -/
inductive Action (P : Type) where
  | exchange (producer : P) (node : Addr)
  | store (producer : P)
  | consume

variable {P T : Type}

/-- The constructor: one node, of which only `Next` is initialised. -/
def start (programs : P → List T) (front : Addr) : State P T where
  heap := Function.update (fun _ => .free) front (.node none none)
  head := front
  tail := front
  programs := programs
  pending := fun _ => none
  consumer := .idle
  exchanged := []
  returned := []
  deletions := []
  faulted := false

/-- Use a node that should be alive. -/
def access (state : State P T) (node : Addr) : State P T :=
  { state with faulted := state.faulted || !(state.heap node).alive }

/-- The exchange of `_head`, with what the constructor of the node has stored before. -/
def exchange [DecidableEq P] (state : State P T) (producer : P) (node : Addr) (input : T)
    (rest : List T) : State P T :=
  { state with
    heap := Function.update state.heap node (.node (some input) none)
    head := node
    programs := Function.update state.programs producer rest
    pending := Function.update state.pending producer (some (state.head, node))
    exchanged := state.exchanged ++ [(producer, input)] }

/-- `prevHead->Next.store(node)`. -/
def storeNext [DecidableEq P] (state : State P T) (producer : P) (prevHead node : Addr) :
    State P T :=
  let accessed := access state prevHead
  { accessed with
    heap := Function.update state.heap prevHead ((state.heap prevHead).setNext (some node))
    pending := Function.update state.pending producer none }

/-- `delete tail`, and the return from `Dequeue`. -/
def deleteTail (state : State P T) (tail : Addr) (result : T) : State P T :=
  let accessed := access state tail
  { accessed with
    heap := Function.update state.heap tail .deleted
    deletions := state.deletions ++ [tail]
    returned := state.returned ++ [result]
    consumer := .idle }

/-- The next step of the consumer.  A read of uninitialised data is a fault, too. -/
def consume (state : State P T) : State P T :=
  match state.consumer with
  | .idle => { state with consumer := .gotTail state.tail }
  | .gotTail tail =>
      match (state.heap tail).next with
      | none => { access state tail with consumer := .idle }
      | some next => { access state tail with consumer := .gotNext tail next }
  | .gotNext tail next =>
      match (state.heap next).data with
      | none => { access state next with consumer := .idle, faulted := true }
      | some result => { access state next with consumer := .gotData tail next result }
  | .gotData tail next result => { state with tail := next, consumer := .stored tail result }
  | .stored tail result => deleteTail state tail result

/-- One step of one thread.  A producer exchanges when its last `Enqueue` has
returned and it has an input left; the node is a new one. -/
def step [DecidableEq P] : Step (State P T) (Action P)
  | state, .exchange producer node =>
      match state.pending producer, state.programs producer with
      | none, input :: rest =>
          if (state.heap node).isFree then some (exchange state producer node input rest) else none
      | _, _ => none
  | state, .store producer =>
      (state.pending producer).map fun late => storeNext state producer late.1 late.2
  | state, .consume => some (consume state)

end Cncpp.Queue.NonIntrusive

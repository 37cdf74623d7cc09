import Cncpp.Transition.Run
import Mathlib.Logic.Function.Basic

/-!
# The intrusive queue

`MPSCQueueIntrusive` links the enqueued objects themselves and keeps one dummy node,
which `Dequeue` removes from the front and enqueues again behind the last object it
finds.  The model has the atomic steps of `Enqueue` and `Dequeue`, any number of
producers and one consumer.

A thread is named by `some producer`, and the consumer by `none`: it stores links, too,
when it enqueues the dummy.  A producer enqueues objects that are not in the queue;
an object may come back after it has been dequeued.
-/

namespace Cncpp.Queue.Intrusive

open Cncpp.Transition

/-- A pointer to an enqueued object, or `_dummyPtr`. -/
inductive Node (T : Type) where
  | dummy
  | object (value : T)
  deriving DecidableEq

/-- Where the consumer stands in `Dequeue`, with its local variables. -/
inductive Consumer (T : Type) where
  | idle
  /-- After loading `_tail`. -/
  | gotTail (tail : Node T)
  /-- The dummy is at the front and has the link `next`. -/
  | skip (next : Node T)
  /-- After storing the node behind the dummy to `_tail`. -/
  | skipped (tail : Node T)
  /-- `tail` has the link `next`. -/
  | found (tail next : Node T)
  /-- `tail` has had no link. -/
  | missing (tail : Node T)
  /-- At the beginning of `Enqueue(_dummyPtr)`. -/
  | clearing (tail : Node T)
  /-- After clearing the link of the dummy. -/
  | exchanging (tail : Node T)
  /-- After the exchange of `_head`. -/
  | storing (tail prevHead : Node T)
  /-- After `Enqueue(_dummyPtr)`. -/
  | reload (tail : Node T)

/-- A `Dequeue` that has returned false. -/
structure Miss where
  /-- No `Enqueue` of a producer was in progress at any point of the call. -/
  quiet : Bool
  returned : Nat
  exchanged : Nat
  deriving DecidableEq

/-- The queue, the threads that use it, and the history of the run. -/
structure State (P T : Type) where
  /-- `IntrusiveLink` of every node. -/
  link : Node T → Option (Node T)
  head : Node T
  tail : Node T
  /-- The object of an `Enqueue` that has cleared its link and not yet exchanged `_head`. -/
  cleared : P → Option T
  /-- The previous head and the new node of an `Enqueue` between its last two steps. -/
  pending : Option P → Option (Node T × Node T)
  consumer : Consumer T
  /-- History: the objects that are being enqueued or have not been dequeued. -/
  inside : List (Node T)
  /-- History: the producers inside of `Enqueue`. -/
  active : List P
  /-- History: no producer has been inside of `Enqueue` since the last `Dequeue` began. -/
  quiet : Bool
  /-- History: the objects in the order of their exchanges. -/
  exchanged : List T
  /-- History: what `Dequeue` has returned. -/
  returned : List (Node T)
  /-- History: the calls of `Dequeue` that have returned false. -/
  misses : List Miss

/-- The next step of a producer, or of the consumer. -/
inductive Action (P T : Type) where
  | enqueue (producer : P) (input : T)
  | exchange (producer : P)
  | store (producer : P)
  | consume

variable {P T : Type}

/-- The constructor.  The links of the objects are whatever they are. -/
def start [DecidableEq T] (links : Node T → Option (Node T)) : State P T where
  link := Function.update links .dummy none
  head := .dummy
  tail := .dummy
  cleared := fun _ => none
  pending := fun _ => none
  consumer := .idle
  inside := []
  active := []
  quiet := true
  exchanged := []
  returned := []
  misses := []

variable [DecidableEq P] [DecidableEq T]

/-! ## The steps of `Enqueue` -/

/-- `input->IntrusiveLink.store(nullptr)`. -/
def clearLink (state : State P T) (input : Node T) : State P T :=
  { state with link := Function.update state.link input none }

/-- `_head.exchange(input)`. -/
def exchangeHead (state : State P T) (thread : Option P) (input : Node T) : State P T :=
  { state with
    head := input
    pending := Function.update state.pending thread (some (state.head, input)) }

/-- `prevHead->IntrusiveLink.store(input)`. -/
def storeLink (state : State P T) (thread : Option P) (prevHead input : Node T) : State P T :=
  { state with
    link := Function.update state.link prevHead (some input)
    pending := Function.update state.pending thread none }

/-- A producer begins `Enqueue` by clearing the link. -/
def enqueue (state : State P T) (producer : P) (input : T) : State P T :=
  { clearLink state (.object input) with
    cleared := Function.update state.cleared producer (some input)
    inside := .object input :: state.inside
    active := producer :: state.active
    quiet := false }

/-- A producer exchanges `_head`. -/
def exchange (state : State P T) (producer : P) (input : T) : State P T :=
  { exchangeHead state (some producer) (.object input) with
    cleared := Function.update state.cleared producer none
    exchanged := state.exchanged ++ [input] }

/-- A producer stores the link and returns. -/
def store (state : State P T) (producer : P) (prevHead input : Node T) : State P T :=
  { storeLink state (some producer) prevHead input with
    active := state.active.filter (· ≠ producer) }

/-! ## The steps of `Dequeue` -/

/-- `_tail.store(next); result = tail; return true`. -/
def returnTail (state : State P T) (tail next : Node T) : State P T :=
  { state with
    tail := next
    consumer := .idle
    inside := state.inside.filter (· ≠ tail)
    returned := state.returned ++ [tail] }

/-- `return false`. -/
def returnFalse (state : State P T) : State P T :=
  { state with
    consumer := .idle
    misses := state.misses ++ [⟨state.quiet, state.returned.length, state.exchanged.length⟩] }

/-- The next step of the consumer. -/
def consume (state : State P T) : State P T :=
  match state.consumer with
  | .idle => { state with consumer := .gotTail state.tail, quiet := state.active.isEmpty }
  | .gotTail tail =>
      match state.link tail with
      | none =>
          if tail = .dummy then returnFalse state else { state with consumer := .missing tail }
      | some next =>
          if tail = .dummy then { state with consumer := .skip next }
          else { state with consumer := .found tail next }
  | .skip next => { state with tail := next, consumer := .skipped next }
  | .skipped tail =>
      match state.link tail with
      | none => { state with consumer := .missing tail }
      | some next => { state with consumer := .found tail next }
  | .found tail next => returnTail state tail next
  | .missing tail =>
      if tail = state.head then { state with consumer := .clearing tail } else returnFalse state
  | .clearing tail => { clearLink state .dummy with consumer := .exchanging tail }
  | .exchanging tail =>
      { exchangeHead state none .dummy with consumer := .storing tail state.head }
  | .storing tail prevHead =>
      { storeLink state none prevHead .dummy with consumer := .reload tail }
  | .reload tail =>
      match state.link tail with
      | none => returnFalse state
      | some next => { state with consumer := .found tail next }

/-- One step of one thread.  A producer enqueues when its last `Enqueue` has returned. -/
def step : Step (State P T) (Action P T)
  | state, .enqueue producer input =>
      if state.cleared producer = none ∧ state.pending (some producer) = none ∧
          .object input ∉ state.inside then
        some (enqueue state producer input)
      else none
  | state, .exchange producer => (state.cleared producer).map (exchange state producer)
  | state, .store producer =>
      (state.pending (some producer)).map fun late => store state producer late.1 late.2
  | state, .consume => some (consume state)

end Cncpp.Queue.Intrusive

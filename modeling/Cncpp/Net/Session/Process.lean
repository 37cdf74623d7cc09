import Cncpp.Loop.Bounded
import Cncpp.Queue.NonIntrusive.Sequential

/-!
# Processing received messages

`processReceivedMsg` dequeues until the queue is empty, and passes every message to the
callback or to `doMsg` before deleting it.  `doMsg` has two overloads, and the one on
`const Message&` calls `doMsg(std::move(msg))`.  Which overload that call resolves to is
decided by the kind of the argument expression, so the model has the kinds and the rule.

A recursion is given a bound on its depth; `none` means that the bound was reached.
-/

namespace Cncpp.Net.Process

open Cncpp.Loop
open Cncpp.Queue.NonIntrusive
open Cncpp.Transition

/-- The kind of an expression of type `Message` or `const Message`. -/
inductive ArgKind where
  | lvalue
  | constLvalue
  | xvalue
  | constXvalue
  deriving DecidableEq

/-- `std::move` keeps a `const`. -/
def ArgKind.move : ArgKind → ArgKind
  | lvalue => xvalue
  | constLvalue => constXvalue
  | kind => kind

/-- The overloads of `doMsg`. -/
inductive Overload where
  /-- `doMsg(const Message&)`. -/
  | constRef
  /-- `doMsg(Message&&)`. -/
  | rvalueRef
  deriving DecidableEq

/-- `Message&&` binds to an rvalue that is not `const`, and is then the better match;
`const Message&` binds to everything. -/
def resolve : ArgKind → Overload
  | .xvalue => .rvalueRef
  | _ => .constRef

/-- A call of `doMsg`.  Inside of `doMsg(const Message&)` the parameter is a `const`
lvalue. -/
def doMsg : Nat → ArgKind → Option Unit
  | 0, _ => none
  | fuel + 1, kind =>
      match resolve kind with
      | .constRef => doMsg fuel ArgKind.constLvalue.move
      | .rvalueRef => some ()

variable {P M : Type}

/-- What is done with a message. -/
inductive Event (M : Type) where
  | callback (msg : M)
  | doMsg (msg : M)
  | deleted (msg : M)
  deriving DecidableEq

/-- The members that `processReceivedMsg` uses.  The queue holds pointers, which may be
null. -/
structure Session (P M : Type) where
  recivedMsgQueue : State P (Option M)
  /-- `msg_callback_` is set. -/
  msgCallback : Bool
  /-- History: what has been done with the messages. -/
  events : List (Event M)

/-- Pass a message to the callback, which returns, or to `doMsg`. -/
def dispatch (fuel : Nat) (session : Session P M) (msg : M) : Option (Session P M) :=
  if session.msgCallback then
    some { session with events := session.events ++ [.callback msg] }
  else
    (doMsg fuel .lvalue).map fun _ => { session with events := session.events ++ [.doMsg msg] }

/-- One pass of the loop of `processReceivedMsg`. -/
def processPass (fuel : Nat) (session : Session P M) :
    Pass (Session P M) (Option (Session P M)) :=
  match dequeue session.recivedMsgQueue with
  | (none, queue) => .leave (some { session with recivedMsgQueue := queue })
  | (some none, queue) => .again { session with recivedMsgQueue := queue }
  | (some (some msg), queue) =>
      match dispatch fuel { session with recivedMsgQueue := queue } msg with
      | none => .leave none
      | some passed => .again { passed with events := passed.events ++ [.deleted msg] }

/-- `processReceivedMsg`. -/
def processReceivedMsg (fuel : Nat) (session : Session P M) : Option (Session P M) :=
  (run (processPass fuel) fuel session).join

/-- The messages among the queued pointers. -/
def messages (content : List (Option M)) : List M :=
  content.filterMap id

/-- What should be done with a message. -/
def handled (msgCallback : Bool) (msg : M) : List (Event M) :=
  [if msgCallback then .callback msg else .doMsg msg, .deleted msg]

/-! ## `doMsg` -/

/-- The call on a `const` rvalue resolves to the overload that makes it. -/
theorem doMsg_constXvalue (fuel : Nat) : doMsg fuel .constXvalue = none := by
  induction fuel with
  | zero => rfl
  | succ fuel ih => exact ih

/-- `doMsg(*msg)` never returns. -/
theorem doMsg_lvalue (fuel : Nat) : doMsg fuel .lvalue = none := by
  cases fuel with
  | zero => rfl
  | succ fuel => exact doMsg_constXvalue fuel

/-! ## The loop -/

variable [DecidableEq P]

/-- `processReceivedMsg` terminates with the queue empty, and has passed every message on
and deleted it, in the order of the queue. -/
def Drains (session : Session P M) (content : List (Option M)) : Prop :=
  ∃ fuel result, processReceivedMsg fuel session = some result ∧
    Holds result.recivedMsgQueue [] ∧
      result.events =
        session.events ++ (messages content).flatMap (handled session.msgCallback)

/-- With a callback, or without a message, the loop runs once for every pointer. -/
theorem run_processPass (fuel : Nat) {content : List (Option M)} {session : Session P M}
    (holds : Holds session.recivedMsgQueue content)
    (returns : session.msgCallback = true ∨ messages content = []) :
    ∃ result, run (processPass fuel) (content.length + 1) session = some (some result) ∧
      Holds result.recivedMsgQueue [] ∧
        result.events =
          session.events ++ (messages content).flatMap (handled session.msgCallback) := by
  induction content generalizing session with
  | nil =>
      obtain ⟨after, result, empty⟩ := holds.dequeue_nil
      refine ⟨{ session with recivedMsgQueue := after }, ?_, empty, ?_⟩
      · simp [run, processPass, result]
      · simp [messages]
  | cons pointer rest ih =>
      obtain ⟨after, result, remaining⟩ := holds.dequeue_cons
      cases pointer with
      | none =>
          obtain ⟨final, returned, empty, events⟩ :=
            @ih { session with recivedMsgQueue := after } remaining returns
          refine ⟨final, ?_, empty, events⟩
          rw [List.length_cons, run, processPass, result]
          exact returned
      | some msg =>
          have callback : session.msgCallback = true := by
            rcases returns with set | nothing
            · exact set
            · simp [messages] at nothing
          obtain ⟨final, returned, empty, events⟩ :=
            @ih
              { session with
                recivedMsgQueue := after
                events := session.events ++ [.callback msg] ++ [.deleted msg] }
              remaining (Or.inl callback)
          refine ⟨final, ?_, empty, ?_⟩
          · rw [List.length_cons, run, processPass, result]
            simp only [dispatch, if_pos callback]
            exact returned
          · rw [events]
            simp [messages, handled, callback]

/-- Without a callback, the first message is never done with. -/
theorem run_processPass_none (fuel passes : Nat) {content : List (Option M)}
    {session : Session P M} (holds : Holds session.recivedMsgQueue content)
    (unset : session.msgCallback = false) (queued : messages content ≠ []) :
    (run (processPass fuel) passes session).join = none := by
  induction passes generalizing content session with
  | zero => rfl
  | succ passes ih =>
      cases content with
      | nil => exact absurd rfl queued
      | cons pointer rest =>
          obtain ⟨after, result, remaining⟩ := holds.dequeue_cons
          cases pointer with
          | none =>
              rw [run, processPass, result]
              exact @ih rest { session with recivedMsgQueue := after } remaining unset queued
          | some msg =>
              rw [run, processPass, result]
              simp [dispatch, unset, doMsg_lvalue]

/-- The queue is drained exactly when a callback is set or no message is queued. -/
theorem drains_iff {session : Session P M} {content : List (Option M)}
    (holds : Holds session.recivedMsgQueue content) :
    Drains session content ↔ session.msgCallback = true ∨ messages content = [] := by
  constructor
  · rintro ⟨fuel, result, returned, _⟩
    by_cases unset : session.msgCallback = false
    · right
      by_contra queued
      rw [processReceivedMsg, run_processPass_none fuel fuel holds unset queued] at returned
      contradiction
    · exact Or.inl (by simpa using unset)
  · intro returns
    obtain ⟨result, returned, empty, events⟩ :=
      run_processPass (content.length + 1) holds returns
    exact ⟨content.length + 1, result, by rw [processReceivedMsg, returned]; rfl, empty, events⟩

/-- One producer enqueues these pointers. -/
def pointers : Unit → List (Option Nat) :=
  fun _ => [some 10, none, some 11]

/-- Its steps. -/
def enqueuing : List (Action Unit) :=
  [.exchange () 1, .store (), .exchange () 2, .store (), .exchange () 3, .store ()]

/-- The theorem at these pointers, with a callback. -/
theorem enqueuing_drains :
    ∃ queue, exec step (start pointers 0) enqueuing = some queue ∧
      Drains ⟨queue, true, []⟩ [some 10, none, some 11] := by
  have run : ∃ queue : State Unit (Option Nat), exec step (start pointers 0) enqueuing =
      some queue ∧ queue.consumer = .idle ∧ (∀ producer, queue.pending producer = none) ∧
        queue.exchanged = [((), some 10), ((), none), ((), some 11)] ∧ queue.returned = [] :=
    ⟨_, rfl, rfl, fun _ => rfl, rfl, rfl⟩
  obtain ⟨queue, reached, idle, ready, exchanged, returned⟩ := run
  have holds := holds_of_run reached idle ready
  rw [exchanged, returned] at holds
  exact ⟨queue, reached, (drains_iff holds).mpr (Or.inl rfl)⟩

/-- One message is queued and no callback is set: no bound suffices. -/
theorem enqueued_never_processed :
    ∃ queue : State Unit (Option Nat),
      exec step (start pointers 0) [.exchange () 1, .store ()] = some queue ∧
        Holds queue [some 10] ∧ ∀ fuel, processReceivedMsg fuel ⟨queue, false, []⟩ = none := by
  have run : ∃ queue : State Unit (Option Nat),
      exec step (start pointers 0) [.exchange () 1, .store ()] = some queue ∧
        queue.consumer = .idle ∧ (∀ producer, queue.pending producer = none) ∧
          queue.exchanged = [((), some 10)] ∧ queue.returned = [] :=
    ⟨_, rfl, rfl, fun _ => rfl, rfl, rfl⟩
  obtain ⟨queue, reached, idle, ready, exchanged, returned⟩ := run
  have holds := holds_of_run reached idle ready
  rw [exchanged, returned] at holds
  exact ⟨queue, reached, holds, fun fuel => run_processPass_none fuel fuel holds rfl (by decide)⟩

end Cncpp.Net.Process

import Cncpp.Redis.Core
import Cncpp.Redis.Format
import Cncpp.Task.Core

/-!
# Redis commands in the task pool

`ns_async::main` makes a task pool, submits `max_task` tasks that set a key each and then
`max_task` tasks that get these keys again, and calls `runInMain` for ever.  `work()` sends
the command of its task on a connection of the pool and keeps the reply.

The server is outside of the repository.  It performs commands one after the other; of
`SET` and `GET` it is used which values they leave and find.  The connections of the pool
select one database, no other client writes to it, and every command is answered.  A
connection that is grabbed is not used by another thread, so that a call of `work()` is one
step, the one at the server.
-/

namespace Cncpp.Redis.Async

open Cncpp.Machine
open Cncpp.Task
open Cncpp.Transition

/-- The tasks of `main`, by the `idx` they are made for. -/
inductive RedisTask where
  | set (idx : Nat)
  | get (idx : Nat)
  deriving DecidableEq

/-- `std::to_string(uint32_t)`. -/
def toString (value : Nat) : Text :=
  Nat.toDigits 10 value

/-- `key` of the tasks for `idx`. -/
def key (idx : Nat) : Text :=
  toString idx

/-- `value` of the `SetTask` for `idx`. -/
def value (idx : Nat) : Text :=
  toString (uint32 (idx + 100))

/-- The words of the command that `work()` sends. -/
def RedisTask.sends (closing : Bool) : RedisTask → Option (List Text)
  | set idx => Format.SetTask.work closing (key idx) (value idx)
  | get idx => Format.GetTask.work closing (key idx)

/-- The reply to a `GET` that finds a text. -/
def found (text : Text) : RedisReply :=
  .string (String.ofList text)

/-- A server: how it performs a command, and the text under a key, if there is one. -/
structure Server (Store : Type) where
  perform : Store → List Text → RedisReply × Store
  lookup : Store → Text → Option Text
  /-- `SET` stores its value. -/
  lookup_set : ∀ store key value,
    lookup (perform store ["SET".toList, key, value]).2 key = some value
  /-- `SET` does not change the other keys. -/
  lookup_set_of_ne : ∀ store key value other, other ≠ key →
    lookup (perform store ["SET".toList, key, value]).2 other = lookup store other
  /-- `GET` replies with a text exactly if it is stored. -/
  get_found : ∀ store key text,
    (perform store ["GET".toList, key]).1 = found text ↔ lookup store key = some text
  /-- `GET` changes nothing. -/
  lookup_get : ∀ store key other,
    lookup (perform store ["GET".toList, key]).2 other = lookup store other

/-- The program: the pool, the tasks that `main` has still to submit, and the database. -/
structure Program (n : Nat) (Store : Type) where
  pool : TaskPool n Unit RedisTask
  pending : List RedisTask
  store : Store
  /-- `reply` of every task, in the order of the calls of `work()`. -/
  replies : List (RedisTask × RedisReply)

/-- The steps of `main` and of the threads of the pool. -/
inductive Action (n : Nat) where
  | getThread
  | put
  | take (worker : Fin n)
  | work (worker : Fin n)
  | addDone (worker : Fin n)
  | takeDone
  | done
  deriving DecidableEq

/-- The tasks of the two loops of `main`. -/
def tasks (maxTask : Nat) : List RedisTask :=
  (List.range maxTask).map .set ++ (List.range maxTask).map .get

namespace Program

variable {n : Nat} {Store : Type}

/-- After `startAll`, with the value that `cur_thread_idx_` happens to have. -/
def start (curThreadIdx maxTask : Nat) (store : Store) : Program n Store where
  pool := Task.start curThreadIdx
  pending := tasks maxTask
  store := store
  replies := []

/-- `main` has left its two loops. -/
def Submitted (program : Program n Store) : Prop :=
  program.pending = [] ∧ program.pool.adding () = none

instance (program : Program n Store) : Decidable program.Submitted :=
  inferInstanceAs (Decidable (_ ∧ _))

/-- A step that is one of the pool alone. -/
def inPool [NeZero n] (program : Program n Store) (act : Task.Action n Unit RedisTask) :
    Option (Program n Store) :=
  (Task.step program.pool act).map fun pool => { program with pool := pool }

/-- The database and the replies after the first task of a batch has sent its command. -/
def answer (server : Server Store) (program : Program n Store) (task : RedisTask)
    (words : List Text) : Program n Store :=
  let performed := server.perform program.store words
  { program with store := performed.2, replies := program.replies ++ [(task, performed.1)] }

/-- One step of `main` or of a thread. -/
def step [NeZero n] (server : Server Store) (closing : Bool) :
    Step (Program n Store) (Action n)
  | program, .getThread =>
      match program.pending with
      | task :: rest => { program with pending := rest }.inPool (.getThread () task)
      | [] => none
  | program, .put => program.inPool (.put ())
  | program, .take worker => program.inPool (.take worker)
  | program, .work worker =>
      match program.pool.batch worker with
      | task :: _ => (task.sends closing).bind fun words =>
          (program.answer server task words).inPool (.work worker true)
      | [] => none
  | program, .addDone worker => program.inPool (.addDone worker)
  | program, .takeDone => if program.Submitted then program.inPool .takeDone else none
  | program, .done => program.inPool .done

end Program

/-! ## Words of the commands -/

theorem toString_ne_nil (value : Nat) : toString value ≠ [] :=
  Nat.toDigits_ne_nil

theorem toString_injective {first second : Nat} (same : toString first = toString second) :
    first = second := by
  have read := congrArg (Nat.ofDigitChars 10 · 0) same
  simpa only [toString, Nat.ofDigitChars_ten_toDigits] using read

theorem toString_plain (value : Nat) : Format.Plain (toString value) := by
  intro char member
  have digit : char.isDigit = true := Nat.isDigit_of_mem_toDigits (by decide) (by decide) member
  refine ⟨?_, ?_, ?_⟩ <;> rintro rfl <;> exact absurd digit (by decide)

/-- What the tasks send. -/
def RedisTask.words : RedisTask → List Text
  | set idx => ["SET".toList, key idx, value idx]
  | get idx => ["GET".toList, key idx]

/-- Numbers are sent as one word each. -/
theorem sends_eq (closing : Bool) (task : RedisTask) : task.sends closing = some task.words := by
  cases task with
  | set idx =>
      rw [RedisTask.sends, Format.SetTask.work, Format.format_set, RedisTask.words]
      refine (Format.command_joined_iff ?_).mpr ?_
      · simp [key, value, toString_ne_nil]
      · exact ⟨by decide, toString_plain idx, Or.inl (toString_plain _)⟩
  | get idx =>
      rw [RedisTask.sends, Format.GetTask.work, Format.format_get, RedisTask.words]
      refine (Format.command_joined_iff ?_).mpr ?_
      · simp [key, toString_ne_nil]
      · exact ⟨by decide, Or.inl (toString_plain idx)⟩

end Cncpp.Redis.Async

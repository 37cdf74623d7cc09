import Cncpp.Batch.Greedy
import Cncpp.Loop.Bounded
import Cncpp.Machine.Word
import Cncpp.Sql.Literal

/-!
# Saving rows in batches

`MysqlConn::replaceAll` appends row after row to the text of one `REPLACE` statement and
executes it as soon as its size exceeds a limit.  The model returns the texts that are
passed to `execute` next to the returned number.

Of mysql++ it is used that `<<` appends text, that `execute` sends the accumulated text,
and that a new query is empty.  The server's answers are given in the order of the
executions.
-/

namespace Cncpp.Mysql

open Cncpp.Batch
open Cncpp.Loop
open Cncpp.Machine
open Cncpp.Sql (separated separated_concat separated_singleton)

/-- The members of a row type that `replaceAll` uses. -/
structure Table (Row : Type) where
  table : Text
  fieldList : Text
  valueList : Row → Text

/-- How an `execute` ends: with a result and its number of rows, with a result that tests
false, or with an exception of mysql++. -/
inductive Executed where
  | rows (count : Nat)
  | refused
  | threw
  deriving DecidableEq

/-- `getMaxMysqlPacketSize`, where the query shows the value of `max_allowed_packet`, or
nothing. -/
def getMaxMysqlPacketSize : Option Nat → Nat
  | some value => uint32 value
  | none => 0

/-- `surplus_size`. -/
def surplusSize : Nat := 1000

/-- `getMaxSafeMysqlPacketSize`. -/
def getMaxSafeMysqlPacketSize (shown : Option Nat) : Nat :=
  let maxSize := getMaxMysqlPacketSize shown
  if maxSize = 0 ∨ maxSize ≤ surplusSize then 0 else maxSize - surplusSize

variable {Row : Type}

namespace Table

variable (db : Table Row)

/-- `head_str`. -/
def head : Text :=
  "REPLACE INTO `".toList ++ db.table ++ "` (".toList ++ db.fieldList ++ ") VALUES".toList

/-- The parenthesised values of one row. -/
def tuple (row : Row) : Text :=
  '(' :: db.valueList row ++ [')']

/-- One statement for the rows of a batch. -/
def statement (batch : List Row) : Text :=
  db.head ++ [','].intercalate (batch.map db.tuple)

end Table

/-- The returned number and the texts that have been executed. -/
abbrev Result := Nat × List Text

/-- The value of `return -1`. -/
def minusOne : Nat := 2 ^ 64 - 1

/-- The variables of `replaceAll`, with the texts executed so far. -/
structure Saving where
  query : Text
  readycount : Nat
  savedSize : Nat
  sent : List Text
  deriving DecidableEq

/-- `query.execute()` and what depends on its result. -/
def execute (answers : Nat → Executed) (state : Saving) : Pass Saving Result :=
  let sent := state.sent ++ [state.query]
  match answers state.sent.length with
  | .rows count =>
      .again { state with savedSize := uint64 (state.savedSize + count), sent := sent }
  | .refused => .leave (state.savedSize, sent)
  | .threw => .leave (minusOne, sent)

/-- The texts that a pass of the loop appends, with the count. -/
def append (db : Table Row) (state : Saving) (row : Row) : Saving :=
  let separated := if state.readycount ≠ 0 then state.query ++ [','] else state.query
  { state with
    query := separated ++ db.tuple row
    readycount := uint32 (state.readycount + 1) }

/-- One pass of the loop over the container. -/
def saveRow (db : Table Row) (maxSafe : Nat) (answers : Nat → Executed) (state : Saving)
    (row : Row) : Pass Saving Result :=
  let appended := append db state row
  if maxSafe < appended.query.length then
    match execute answers appended with
    | .again next => .again { next with query := db.head, readycount := 0 }
    | .leave result => .leave result
  else .again appended

/-- The loop over the container. -/
def saveRows (db : Table Row) (maxSafe : Nat) (answers : Nat → Executed) :
    Saving → List Row → Pass Saving Result
  | state, [] => .again state
  | state, row :: rest =>
      match saveRow db maxSafe answers state row with
      | .again next => saveRows db maxSafe answers next rest
      | .leave result => .leave result

/-- What follows the loop. -/
def saveRest (answers : Nat → Executed) (state : Saving) : Result :=
  if state.readycount ≠ 0 then
    match execute answers state with
    | .again next => (next.savedSize, next.sent)
    | .leave result => result
  else (state.savedSize, state.sent)

/-- What follows the loop, unless the loop returns. -/
def finish (answers : Nat → Executed) : Pass Saving Result → Result
  | .again state => saveRest answers state
  | .leave result => result

/-- `replaceAll`. -/
def replaceAll (db : Table Row) (shown : Option Nat) (answers : Nat → Executed)
    (cont : List Row) : Result :=
  if cont.isEmpty then (0, [])
  else
    let maxSafe := getMaxSafeMysqlPacketSize shown
    if maxSafe = 0 then (0, [])
    else finish answers (saveRows db maxSafe answers ⟨db.head, 0, 0, []⟩ cont)

/-- `replaceDB`. -/
def replaceDB (db : Table Row) (answer : Executed) (data : Row) : Result :=
  let sent := [db.head ++ db.tuple data]
  match answer with
  | .rows count => (uint64 count, sent)
  | .refused => (0, sent)
  | .threw => (minusOne, sent)

/-! ## Statements -/

namespace Table

variable (db : Table Row)

/-- The text of a batch exceeds the limit. -/
def full (maxSafe : Nat) (batch : List Row) : Bool :=
  decide (maxSafe < (db.statement batch).length)

/-- The tuples of a statement are separated by commas. -/
theorem statement_eq_separated (batch : List Row) :
    db.statement batch = db.head ++ separated db.tuple batch :=
  rfl

@[simp]
theorem statement_nil : db.statement [] = db.head := by
  simp [statement]

theorem statement_singleton (row : Row) : db.statement [row] = db.head ++ db.tuple row := by
  rw [statement_eq_separated, separated_singleton]

theorem statement_concat {batch : List Row} (nonempty : batch ≠ []) (row : Row) :
    db.statement (batch ++ [row]) = db.statement batch ++ ',' :: db.tuple row := by
  rw [statement_eq_separated, separated_concat nonempty, statement_eq_separated,
    List.append_assoc]

theorem length_tuple (row : Row) : (db.tuple row).length = (db.valueList row).length + 2 := by
  simp [tuple]

/-- A row makes the text longer. -/
theorem length_statement_concat (batch : List Row) (row : Row) :
    (db.statement batch).length + 2 ≤ (db.statement (batch ++ [row])).length := by
  have tuple := db.length_tuple row
  by_cases empty : batch = []
  · rw [empty, List.nil_append, statement_singleton, statement_nil, List.length_append]
    omega
  · rw [statement_concat _ empty, List.length_append, List.length_cons]
    omega

/-- A batch has no more rows than its text has characters. -/
theorem length_le_statement (batch : List Row) :
    batch.length ≤ (db.statement batch).length := by
  induction batch using List.reverseRecOn with
  | nil => exact Nat.zero_le _
  | append_singleton batch row ih =>
      have longer := db.length_statement_concat batch row
      rw [List.length_append, List.length_singleton]
      omega

end Table

/-! ## Executing statements one after the other -/

/-- Execute texts until one of them fails. -/
def deliver (answers : Nat → Executed) : Nat → List Text → List Text → Result
  | saved, sent, [] => (saved, sent)
  | saved, sent, text :: rest =>
      match answers sent.length with
      | .rows count => deliver answers (uint64 (saved + count)) (sent ++ [text]) rest
      | .refused => (saved, sent ++ [text])
      | .threw => (minusOne, sent ++ [text])

/-- The number of rows of a result. -/
def Executed.count : Executed → Nat
  | rows count => count
  | _ => 0

/-- The sum of `rows()` over the first executions. -/
def rowsTotal (answers : Nat → Executed) : Nat → Nat
  | 0 => 0
  | executed + 1 => rowsTotal answers executed + (answers executed).count

/-- `execute` gives a result for each of the first texts. -/
def Succeeds (answers : Nat → Executed) (executed : Nat) : Prop :=
  ∀ index < executed, ∃ count, answers index = .rows count

/-- What is sent is a beginning of the texts. -/
theorem deliver_isPrefix (answers : Nat → Executed) (saved : Nat) (sent texts : List Text) :
    (deliver answers saved sent texts).2 <+: sent ++ texts := by
  induction texts generalizing saved sent with
  | nil => simp [deliver]
  | cons text rest ih =>
      rw [← List.singleton_append, ← List.append_assoc, List.singleton_append, deliver]
      cases answers sent.length with
      | rows count => exact ih (uint64 (saved + count)) (sent ++ [text])
      | refused => exact List.prefix_append _ _
      | threw => exact List.prefix_append _ _

/-- What has been sent stays sent. -/
theorem isPrefix_deliver (answers : Nat → Executed) (saved : Nat) (sent texts : List Text) :
    sent <+: (deliver answers saved sent texts).2 := by
  induction texts generalizing saved sent with
  | nil => exact List.prefix_rfl
  | cons text rest ih =>
      rw [deliver]
      cases answers sent.length with
      | rows count => exact (List.prefix_append sent [text]).trans (ih _ _)
      | refused => exact List.prefix_append sent [text]
      | threw => exact List.prefix_append sent [text]

/-- The first of the texts is sent in any case. -/
theorem deliver_ne_nil (answers : Nat → Executed) (saved : Nat) (sent : List Text)
    {texts : List Text} (nonempty : texts ≠ []) : (deliver answers saved sent texts).2 ≠ [] := by
  obtain ⟨text, rest, rfl⟩ := List.exists_cons_of_ne_nil nonempty
  rw [deliver]
  cases answers sent.length with
  | rows count =>
      intro empty
      have kept := isPrefix_deliver answers (uint64 (saved + count)) (sent ++ [text]) rest
      simp only [empty] at kept
      exact List.concat_ne_nil text sent (List.prefix_nil.mp kept)
  | refused => exact List.concat_ne_nil text sent
  | threw => exact List.concat_ne_nil text sent

/-- The texts before the first failure are all sent, and their rows are added up. -/
theorem deliver_front (answers : Nat → Executed) (front rest : List Text)
    (succeeds : Succeeds answers front.length) :
    deliver answers 0 [] (front ++ rest) =
      deliver answers (uint64 (rowsTotal answers front.length)) front rest := by
  induction front using List.reverseRecOn generalizing rest with
  | nil => rfl
  | append_singleton front text ih =>
      rw [List.length_append, List.length_singleton] at succeeds ⊢
      obtain ⟨count, answered⟩ := succeeds front.length (Nat.lt_succ_self _)
      have before : Succeeds answers front.length :=
        fun index below => succeeds index (Nat.lt_succ_of_lt below)
      rw [List.append_assoc, List.singleton_append, ih (text :: rest) before, deliver, answered]
      simp only [rowsTotal, answered, Executed.count, uint64_add_uint64]

/-- Without a failure all texts are sent. -/
theorem deliver_all {answers : Nat → Executed} {texts : List Text}
    (succeeds : Succeeds answers texts.length) :
    deliver answers 0 [] texts = (uint64 (rowsTotal answers texts.length), texts) := by
  rw [← List.append_nil texts, deliver_front answers _ _ (by simpa using succeeds)]
  simp [deliver]

/-- A failure ends the delivery. -/
theorem deliver_failure {answers : Nat → Executed} {texts : List Text} {failing : Nat}
    (inside : failing < texts.length) (succeeds : Succeeds answers failing)
    (fails : answers failing = .refused ∨ answers failing = .threw) :
    deliver answers 0 [] texts =
      (if answers failing = .refused then uint64 (rowsTotal answers failing) else minusOne,
        texts.take (failing + 1)) := by
  have split : texts = texts.take failing ++ texts[failing] :: texts.drop (failing + 1) := by
    rw [← List.drop_eq_getElem_cons inside, List.take_append_drop]
  have length : (texts.take failing).length = failing :=
    List.length_take_of_le (Nat.le_of_lt inside)
  have front := deliver_front answers (texts.take failing)
    (texts[failing] :: texts.drop (failing + 1)) (by rwa [length])
  rw [← split, length] at front
  rw [front, deliver, length, List.take_add_one, List.getElem?_eq_getElem inside,
    Option.toList_some]
  rcases fails with refused | threw
  · rw [refused, if_pos rfl]
  · rw [threw, if_neg (by decide)]

/-! ## The loop sends the statements of the batches -/

/-- The statements for a container. -/
def Table.statements (db : Table Row) (maxSafe : Nat) (cont : List Row) : List Text :=
  (batches (db.full maxSafe) [] cont).map db.statement

/-- The variables when a batch has been appended. -/
def holding (db : Table Row) (batch : List Row) (saved : Nat) (sent : List Text) : Saving :=
  ⟨db.statement batch, batch.length, saved, sent⟩

variable {db : Table Row} {maxSafe : Nat}

/-- An open batch is not longer than the limit. -/
theorem Table.length_of_open {batch : List Row} (isOpen : Open (db.full maxSafe) batch) :
    batch.length ≤ maxSafe := by
  by_cases empty : batch = []
  · simp [empty]
  · have fits := isOpen batch List.prefix_rfl empty
    rw [Table.full, decide_eq_false_iff_not, Nat.not_lt] at fits
    exact (db.length_le_statement batch).trans fits

theorem append_holding {batch : List Row} (small : batch.length + 1 < 2 ^ 32) (saved : Nat)
    (sent : List Text) (row : Row) :
    append db (holding db batch saved sent) row = holding db (batch ++ [row]) saved sent := by
  have count : uint32 (batch.length + 1) = (batch ++ [row]).length := by
    rw [uint32_of_lt small, List.length_append, List.length_singleton]
  by_cases empty : batch = []
  · subst empty
    simp only [append, holding, List.length_nil, ne_eq, not_true_eq_false, if_false,
      db.statement_nil, List.nil_append, db.statement_singleton]
    rw [← @List.length_nil Row, count, List.nil_append]
  · have started : batch.length ≠ 0 := fun zero => empty (List.length_eq_zero_iff.mp zero)
    simp only [append, holding, count, ne_eq, started, not_false_eq_true, if_true,
      db.statement_concat empty, List.append_assoc, List.singleton_append]

/-- A pass that fills the batch executes its statement. -/
theorem saveRow_of_full {answers : Nat → Executed} {batch : List Row} {row : Row} {saved : Nat}
    {sent : List Text} (small : batch.length + 1 < 2 ^ 32)
    (closed : db.full maxSafe (batch ++ [row]) = true) :
    saveRow db maxSafe answers (holding db batch saved sent) row =
      match answers sent.length with
      | .rows count =>
          .again (holding db [] (uint64 (saved + count))
            (sent ++ [db.statement (batch ++ [row])]))
      | .refused => .leave (saved, sent ++ [db.statement (batch ++ [row])])
      | .threw => .leave (minusOne, sent ++ [db.statement (batch ++ [row])]) := by
  have isFull : maxSafe < (holding db (batch ++ [row]) saved sent).query.length :=
    of_decide_eq_true closed
  rw [saveRow, append_holding small]
  simp only [if_pos isFull]
  simp only [holding, execute, db.statement_nil, List.length_nil]
  cases answers sent.length <;> rfl

/-- A pass that does not fill the batch keeps the row. -/
theorem saveRow_of_not_full {answers : Nat → Executed} {batch : List Row} {row : Row}
    {saved : Nat} {sent : List Text} (small : batch.length + 1 < 2 ^ 32)
    (going : db.full maxSafe (batch ++ [row]) = false) :
    saveRow db maxSafe answers (holding db batch saved sent) row =
      .again (holding db (batch ++ [row]) saved sent) := by
  have notFull : ¬maxSafe < (holding db (batch ++ [row]) saved sent).query.length :=
    of_decide_eq_false going
  rw [saveRow, append_holding small]
  simp only [if_neg notFull]

/-- The loop and what follows it send the statements of the batches, from any open batch
on. -/
theorem finish_saveRows (bounded : maxSafe + 1 < 2 ^ 32) (answers : Nat → Executed)
    {batch : List Row} (isOpen : Open (db.full maxSafe) batch) (rows : List Row) (saved : Nat)
    (sent : List Text) :
    finish answers (saveRows db maxSafe answers (holding db batch saved sent) rows) =
      deliver answers saved sent
        ((batches (db.full maxSafe) batch rows).map db.statement) := by
  induction rows generalizing batch saved sent with
  | nil =>
      cases batch with
      | nil => rfl
      | cons row batch =>
          cases answered : answers sent.length <;>
            simp [saveRows, finish, saveRest, holding, execute, batches, deliver, answered]
  | cons row rows ih =>
      have small : batch.length + 1 < 2 ^ 32 :=
        (Nat.add_le_add_right (Table.length_of_open isOpen) 1).trans_lt bounded
      rw [saveRows, batches]
      cases closed : db.full maxSafe (batch ++ [row]) with
      | true =>
          rw [saveRow_of_full small closed, if_pos rfl, List.map_cons, deliver]
          cases answers sent.length with
          | rows count => exact ih open_nil (uint64 (saved + count)) _
          | refused => rfl
          | threw => rfl
      | false =>
          rw [saveRow_of_not_full small closed, if_neg Bool.false_ne_true]
          exact ih (isOpen.concat closed) saved sent

/-- The limit is a `uint32_t`, and is not its largest value. -/
theorem getMaxSafeMysqlPacketSize_lt (shown : Option Nat) :
    getMaxSafeMysqlPacketSize shown + 1 < 2 ^ 32 := by
  have bound : getMaxMysqlPacketSize shown < 2 ^ 32 := by
    cases shown with
    | none => decide
    | some value => exact uint32_lt value
  rw [getMaxSafeMysqlPacketSize, surplusSize]
  split <;> omega

/-- Without a limit nothing is executed. -/
theorem replaceAll_of_zero (db : Table Row) {shown : Option Nat}
    (zero : getMaxSafeMysqlPacketSize shown = 0) (answers : Nat → Executed) (cont : List Row) :
    replaceAll db shown answers cont = (0, []) := by
  cases cont with
  | nil => rfl
  | cons row rows => simp [replaceAll, zero]

/-- `replaceAll` executes the statements of the batches until one fails. -/
theorem replaceAll_eq_deliver (db : Table Row) {shown : Option Nat}
    (positive : getMaxSafeMysqlPacketSize shown ≠ 0) (answers : Nat → Executed)
    (cont : List Row) :
    replaceAll db shown answers cont =
      deliver answers 0 [] (db.statements (getMaxSafeMysqlPacketSize shown) cont) := by
  cases cont with
  | nil => rfl
  | cons row rows =>
      have start : holding db [] 0 [] = ⟨db.head, 0, 0, []⟩ := by
        rw [holding, db.statement_nil, List.length_nil]
      rw [replaceAll, List.isEmpty_cons, if_neg Bool.false_ne_true]
      simp only [positive, if_false]
      rw [← start, finish_saveRows (getMaxSafeMysqlPacketSize_lt shown) answers open_nil]
      rfl

/-- What is executed, if anything, is the statement of a batch. -/
theorem mem_replaceAll {shown : Option Nat} {answers : Nat → Executed} {cont : List Row}
    {text : Text} (member : text ∈ (replaceAll db shown answers cont).2) :
    ∃ batch ∈ batches (db.full (getMaxSafeMysqlPacketSize shown)) [] cont,
      db.statement batch = text := by
  by_cases zero : getMaxSafeMysqlPacketSize shown = 0
  · rw [replaceAll_of_zero db zero] at member
    exact absurd member List.not_mem_nil
  · rw [replaceAll_eq_deliver db zero] at member
    exact List.mem_map.mp ((deliver_isPrefix answers 0 [] (db.statements _ cont)).subset member)

/-- `replaceDB` executes the statement for its row. -/
theorem replaceDB_sent (answer : Executed) (data : Row) :
    (replaceDB db answer data).2 = [db.statement [data]] := by
  rw [Table.statement_singleton]
  cases answer <;> rfl

/-- The rows are split into batches that are not empty; the statements of these batches are
executed in order, as far as none of them fails; and the number returned is the sum of the
rows of the results, in the arithmetic of `uint64_t`.  For an empty container or a packet
size of zero nothing is executed. -/
theorem replaceAll_partition (db : Table Row) (shown : Option Nat) (cont : List Row) :
    (cont = [] ∨ getMaxSafeMysqlPacketSize shown = 0 →
      ∀ answers, replaceAll db shown answers cont = (0, [])) ∧
    (getMaxSafeMysqlPacketSize shown ≠ 0 →
      ∃ parts : List (List Row),
        parts.flatten = cont ∧ (∀ part ∈ parts, part ≠ []) ∧
          ∀ answers,
            (replaceAll db shown answers cont).2 <+: parts.map db.statement ∧
            (Succeeds answers parts.length →
              replaceAll db shown answers cont =
                (uint64 (rowsTotal answers parts.length), parts.map db.statement)) ∧
            ∀ failing < parts.length, Succeeds answers failing →
              (answers failing = .refused →
                replaceAll db shown answers cont =
                  (uint64 (rowsTotal answers failing),
                    (parts.map db.statement).take (failing + 1))) ∧
              (answers failing = .threw →
                replaceAll db shown answers cont =
                  (minusOne, (parts.map db.statement).take (failing + 1)))) := by
  constructor
  · rintro (rfl | zero) answers
    · rfl
    · exact replaceAll_of_zero db zero answers cont
  · intro positive
    have bySize := replaceAll_eq_deliver db positive
    have texts := fun answers => bySize answers cont
    refine ⟨batches (db.full (getMaxSafeMysqlPacketSize shown)) [] cont,
      flatten_batches _ _ _, fun part => batches_ne_nil, fun answers => ⟨?_, ?_, ?_⟩⟩
    · rw [texts]
      exact deliver_isPrefix answers 0 [] _
    · intro succeeds
      rw [texts, Table.statements, deliver_all (by simpa using succeeds), List.length_map]
    · intro failing inside succeeds
      constructor
      · intro refused
        rw [texts, Table.statements,
          deliver_failure (by simpa using inside) succeeds (Or.inl refused), if_pos refused]
      · intro threw
        rw [texts, Table.statements,
          deliver_failure (by simpa using inside) succeeds (Or.inr threw), threw,
          if_neg (by decide)]

example :
    replaceAll (⟨['t'], ['c'], id⟩ : Table Text) (some 1032) (fun _ => .rows 2)
        [['a'], ['b'], ['c']] =
      (4, ["REPLACE INTO `t` (c) VALUES(a),(b)".toList,
        "REPLACE INTO `t` (c) VALUES(c)".toList]) := by
  decide

end Cncpp.Mysql

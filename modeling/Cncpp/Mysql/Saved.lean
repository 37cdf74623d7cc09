import Cncpp.Mysql.Stock
import Cncpp.Sql.Keyed

/-!
# The table after saving

The server reads the statements it executes and saves their rows, first to last, each under
its key.  `replaceAll` sends few long statements and `replaceDB` one statement for each row.
Both leave the same table, and where a statement of `replaceAll` fails, the table is that of
`replaceDB` on the rows of the statements before it.

The server is outside of the repository.  Of it is used that a literal is read by the rule of
`readLiteral`, that the rows of one `REPLACE` are saved in their order, and that a failed
statement changes nothing.
-/

namespace Cncpp.Mysql

open Cncpp.Machine
open Cncpp.Sql
open Cncpp.Sql.Keyed

/-- The loop that saves row after row with `replaceDB`, with the texts that are executed.
What `replaceDB` returns is not used. -/
def replaceEach {Row : Type} (db : Table Row) : (Nat → Executed) → List Row → List Text
  | _, [] => []
  | answers, data :: rest =>
      (replaceDB db (answers 0) data).2 ++ replaceEach db (fun index => answers (index + 1)) rest

/-- `deleteWhere`. -/
def deleteWhere {Row : Type} (db : Table Row) (condition : Text) (answer : Executed) : Result :=
  let query := "DELETE FROM `".toList ++ db.table ++ "`".toList
  let sent := [if condition.length ≠ 0 then query ++ " where ".toList ++ condition else query]
  match answer with
  | .rows count => (uint64 count, sent)
  | .refused => (0, sent)
  | .threw => (minusOne, sent)

theorem replaceEach_eq {Row : Type} (db : Table Row) (answers : Nat → Executed)
    (rows : List Row) : replaceEach db answers rows = (rows.map ([·])).map db.statement := by
  induction rows generalizing answers with
  | nil => rfl
  | cons row rows ih =>
      rw [replaceEach, replaceDB_sent, ih]
      rfl

/-! ## The server -/

variable {Double : Type}

/-- The text of `deleteWhere` without a condition. -/
def emptyText : Text :=
  "DELETE FROM `stock`".toList

theorem deleteWhere_sent (toString : Double → Text) (answer : Executed) :
    (deleteWhere (stockTable toString) [] answer).2 = [emptyText] := by
  cases answer <;> rfl

variable {Key : Type} [DecidableEq Key]

/-- A server with the stock table: what it does with a text that it answers so, and the rows
of the table. -/
structure Server (escape : Char → Option Char) (toString : Double → Text)
    (key : List Text → Key) (Store : Type) where
  perform : Store → Text → Executed → Store
  table : Store → Rows Key (List Text)
  /-- The rows of a `REPLACE` are saved from first to last. -/
  table_replace : ∀ store text rows count,
    readStatement escape (stockTable toString).head text = some rows →
      table (perform store text (.rows count)) = saveAll key (table store) rows
  /-- A `DELETE` without a condition empties the table. -/
  table_delete : ∀ store count, table (perform store emptyText (.rows count)) = fun _ => none
  /-- A statement that fails changes nothing. -/
  table_failed : ∀ store text answer, answer = .refused ∨ answer = .threw →
    table (perform store text answer) = table store

section Stock

variable {escape : Char → Option Char} {toString : Double → Text} {key : List Text → Key}
  {Store : Type}

namespace Server

variable (server : Server escape toString key Store)

/-- The store after texts, with the answer to each. -/
def after : Store → (Nat → Executed) → List Text → Store
  | store, _, [] => store
  | store, answers, text :: rest =>
      after (server.perform store text (answers 0)) (fun index => answers (index + 1)) rest

theorem after_append (store : Store) (answers : Nat → Executed) (first second : List Text) :
    server.after store answers (first ++ second) =
      server.after (server.after store answers first)
        (fun index => answers (first.length + index)) second := by
  induction first generalizing store answers with
  | nil => simp [after]
  | cons text first ih =>
      rw [List.cons_append, after, ih, after]
      simp only [List.length_cons, Nat.add_right_comm _ 1, Nat.add_assoc]

end Server

/-- The first statements succeed, or one of them is the first that fails. -/
theorem succeeds_or_fails (answers : Nat → Executed) (executed : Nat) :
    Succeeds answers executed ∨ ∃ failing < executed, Succeeds answers failing ∧
      (answers failing = .refused ∨ answers failing = .threw) := by
  induction executed with
  | zero => exact Or.inl fun index below => absurd below (Nat.not_lt_zero index)
  | succ executed ih =>
      rcases ih with succeeds | ⟨failing, below, before, fails⟩
      · cases answered : answers executed with
        | rows count =>
            left
            intro index below
            rcases Nat.lt_succ_iff_lt_or_eq.mp below with earlier | rfl
            · exact succeeds index earlier
            · exact ⟨count, answered⟩
        | refused => exact Or.inr ⟨executed, Nat.lt_succ_self _, succeeds, Or.inl answered⟩
        | threw => exact Or.inr ⟨executed, Nat.lt_succ_self _, succeeds, Or.inr answered⟩
      · exact Or.inr ⟨failing, Nat.lt_succ_of_lt below, before, fails⟩

variable (server : Server escape toString key Store)

/-- Statements that succeed save the rows of their batches. -/
theorem after_statements (plain : ∀ value, Plain (toString value)) (store : Store)
    {answers : Nat → Executed} {parts : List (List (Stock Double))}
    (filled : ∀ part ∈ parts, part ≠ [])
    (verbatim : ∀ part ∈ parts, ∀ stock ∈ part, stock.Verbatim escape)
    (succeeds : Succeeds answers parts.length) :
    server.table (server.after store answers (parts.map (stockTable toString).statement)) =
      saveAll key (server.table store) (parts.flatten.map (Stock.contents toString)) := by
  induction parts generalizing store answers with
  | nil => rfl
  | cons part parts ih =>
      obtain ⟨count, answered⟩ := succeeds 0 (Nat.succ_pos _)
      have reads := (statement_reads_iff plain (filled part List.mem_cons_self)).mpr
        (verbatim part List.mem_cons_self)
      have later : Succeeds (fun index => answers (index + 1)) parts.length :=
        fun index inside => succeeds (index + 1) (Nat.succ_lt_succ inside)
      rw [List.map_cons, Server.after, answered,
        ih _ (fun other member => filled other (List.mem_cons_of_mem _ member))
          (fun other member => verbatim other (List.mem_cons_of_mem _ member)) later,
        server.table_replace _ _ _ _ reads, List.flatten_cons, List.map_append, saveAll_append]

/-- The loop with `replaceDB` saves the rows. -/
theorem after_replaceEach (plain : ∀ value, Plain (toString value)) (store : Store)
    {answers : Nat → Executed} {rows : List (Stock Double)}
    (verbatim : ∀ stock ∈ rows, stock.Verbatim escape)
    (succeeds : Succeeds answers rows.length) :
    server.table (server.after store answers
        (replaceEach (stockTable toString) answers rows)) =
      saveAll key (server.table store) (rows.map (Stock.contents toString)) := by
  have filled : ∀ part ∈ rows.map ([·]), part ≠ [] := by simp
  have each : ∀ part ∈ rows.map ([·]), ∀ stock ∈ part, stock.Verbatim escape := by
    simpa using verbatim
  have flat : (rows.map ([·])).flatten = rows := by
    rw [← List.flatMap_def, List.flatMap_singleton']
  rw [replaceEach_eq, after_statements server plain store filled each (by simpa using succeeds),
    flat]

/-- The rows up to a statement that fails are saved, and no others. -/
theorem after_failing (plain : ∀ value, Plain (toString value)) (store : Store)
    {answers : Nat → Executed} {parts : List (List (Stock Double))}
    (filled : ∀ part ∈ parts, part ≠ [])
    (verbatim : ∀ part ∈ parts, ∀ stock ∈ part, stock.Verbatim escape) {failing : Nat}
    (inside : failing < parts.length) (succeeds : Succeeds answers failing)
    (fails : answers failing = .refused ∨ answers failing = .threw) :
    server.table (server.after store answers
        ((parts.map (stockTable toString).statement).take (failing + 1))) =
      saveAll key (server.table store)
        ((parts.take failing).flatten.map (Stock.contents toString)) := by
  have length : (parts.take failing).length = failing :=
    List.length_take_of_le (Nat.le_of_lt inside)
  have split : parts.take (failing + 1) = parts.take failing ++ [parts[failing]] := by
    rw [List.take_add_one, List.getElem?_eq_getElem inside, Option.toList_some]
  have before : Succeeds answers (parts.take failing).length := by rwa [length]
  have saved := after_statements server plain store
    (fun part member => filled part (List.mem_of_mem_take member))
    (fun part member => verbatim part (List.mem_of_mem_take member)) before
  rw [← List.map_take, split, List.map_append, Server.after_append, List.map_singleton,
    Server.after, Server.after, List.length_map, length, Nat.add_zero,
    server.table_failed _ _ _ fails, saved]

/-- `replaceAll` saves the rows up to some row.  With a packet limit it is the last row if and
only if no statement has failed. -/
theorem replaceAll_saves (plain : ∀ value, Plain (toString value)) (store : Store)
    (shown : Option Nat) {cont : List (Stock Double)}
    (verbatim : ∀ stock ∈ cont, stock.Verbatim escape) (answers : Nat → Executed) :
    ∃ saved lost, saved ++ lost = cont ∧
      server.table (server.after store answers
          (replaceAll (stockTable toString) shown answers cont).2) =
        saveAll key (server.table store) (saved.map (Stock.contents toString)) ∧
      (getMaxSafeMysqlPacketSize shown = 0 → saved = []) ∧
      (getMaxSafeMysqlPacketSize shown ≠ 0 →
        (lost = [] ↔
          Succeeds answers (replaceAll (stockTable toString) shown answers cont).2.length)) := by
  obtain ⟨nothing, batched⟩ := replaceAll_partition (stockTable toString) shown cont
  by_cases zero : getMaxSafeMysqlPacketSize shown = 0
  · refine ⟨[], cont, rfl, ?_, fun _ => rfl, fun positive => absurd zero positive⟩
    rw [nothing (Or.inr zero) answers]
    rfl
  obtain ⟨parts, flat, filled, outcomes⟩ := batched zero
  obtain ⟨_, allSent, failed⟩ := outcomes answers
  have each : ∀ part ∈ parts, ∀ stock ∈ part, stock.Verbatim escape := by
    intro part member stock present
    apply verbatim
    rw [← flat]
    exact List.mem_flatten_of_mem member present
  rcases succeeds_or_fails answers parts.length with
    succeeds | ⟨failing, inside, before, fails⟩
  · refine ⟨cont, [], List.append_nil cont, ?_, fun absent => absurd absent zero, fun _ => ?_⟩
    · rw [allSent succeeds, after_statements server plain store filled each succeeds, flat]
    · rw [allSent succeeds]
      simpa using succeeds
  · have texts : (replaceAll (stockTable toString) shown answers cont).2 =
        (parts.map (stockTable toString).statement).take (failing + 1) := by
      rcases fails with refused | threw
      · rw [(failed failing inside before).1 refused]
      · rw [(failed failing inside before).2 threw]
    refine ⟨(parts.take failing).flatten, (parts.drop failing).flatten, ?_, ?_,
      fun absent => absurd absent zero, fun _ => ?_⟩
    · rw [← List.flatten_append, List.take_append_drop, flat]
    · rw [texts, after_failing server plain store filled each inside before fails]
    · have behind : parts.drop failing = parts[failing] :: parts.drop (failing + 1) :=
        List.drop_eq_getElem_cons inside
      have lost : (parts.drop failing).flatten ≠ [] := by
        rw [behind, List.flatten_cons]
        exact List.append_ne_nil_of_left_ne_nil (filled _ (List.getElem_mem inside)) _
      have length : ((parts.map (stockTable toString).statement).take (failing + 1)).length =
          failing + 1 :=
        List.length_take_of_le (by rw [List.length_map]; exact inside)
      rw [texts, length]
      constructor
      · exact fun nothing => absurd nothing lost
      · intro succeeds
        obtain ⟨count, answered⟩ := succeeds failing (Nat.lt_succ_self _)
        rcases fails with refused | threw
        · exact absurd (refused.symm.trans answered) (by simp)
        · exact absurd (threw.symm.trans answered) (by simp)

end Stock

/-- What becomes of the stock table when `replaceAll` is called on rows whose strings stand
for themselves between quotes.  Without a packet limit nothing is saved.  Otherwise the table
is the one that `replaceDB` leaves when it is called on the rows one after the other up to
some row, and it is the last row if and only if no statement has failed. -/
theorem replaceAll_table {escape : Char → Option Char} {toString : Double → Text}
    {key : List Text → Key} {Store : Type} (server : Server escape toString key Store)
    (plain : ∀ value, Plain (toString value)) (store : Store) (shown : Option Nat)
    {cont : List (Stock Double)} (verbatim : ∀ stock ∈ cont, stock.Verbatim escape)
    (answers : Nat → Executed) :
    let sent := (replaceAll (stockTable toString) shown answers cont).2
    (getMaxSafeMysqlPacketSize shown = 0 →
      server.table (server.after store answers sent) = server.table store) ∧
    (getMaxSafeMysqlPacketSize shown ≠ 0 →
      ∃ saved lost, saved ++ lost = cont ∧ (lost = [] ↔ Succeeds answers sent.length) ∧
        ∀ each, Succeeds each saved.length →
          server.table (server.after store answers sent) =
            server.table (server.after store each
              (replaceEach (stockTable toString) each saved))) := by
  obtain ⟨saved, lost, rfl, becomes, nothing, all⟩ :=
    replaceAll_saves server plain store shown verbatim answers
  refine ⟨?_, fun positive => ⟨saved, lost, rfl, all positive, ?_⟩⟩
  · intro zero
    rw [becomes, nothing zero]
    rfl
  · intro each good
    have inSaved : ∀ stock ∈ saved, stock.Verbatim escape :=
      fun stock member => verbatim stock (List.mem_append_left lost member)
    rw [becomes, after_replaceEach server plain store inSaved good]

/-- A table that is kept as rows by key.  Texts other than the two kinds leave it as it is. -/
def performRows (escape : Char → Option Char) (toString : Double → Text)
    (key : List Text → Key) (table : Rows Key (List Text)) (text : Text) :
    Executed → Rows Key (List Text)
  | .rows _ =>
      if text = emptyText then fun _ => none
      else (readStatement escape (stockTable toString).head text).elim table (saveAll key table)
  | _ => table

/-- The server of such a table. -/
def rowsServer (escape : Char → Option Char) (toString : Double → Text)
    (key : List Text → Key) : Server escape toString key (Rows Key (List Text)) where
  perform := performRows escape toString key
  table := id
  table_replace := by
    intro store text rows count reads
    have apart : text ≠ emptyText := by
      rintro rfl
      have begins : ¬(stockTable toString).head.isPrefixOf emptyText := by
        intro kept
        obtain ⟨rest, same⟩ := List.isPrefixOf_iff_prefix.mp kept
        have first : ((stockTable toString).head ++ rest).head? = some 'R' := rfl
        rw [same] at first
        exact absurd first (by decide)
      rw [readStatement, if_neg begins] at reads
      contradiction
    simp [performRows, apart, reads]
  table_delete := fun _ _ => rfl
  table_failed := by
    rintro store text answer (rfl | rfl) <;> rfl

/-- A table with one row for each item. -/
def pensServer : Server some wholeNumber List.head? (Rows (Option Text) (List Text)) :=
  rowsServer some wholeNumber List.head?

/-- Two rows with one item. -/
def pens : List (Stock Nat) :=
  [pen "blue".toList, pen "red".toList]

theorem eq_pen_of_mem {stock : Stock Nat} (member : stock ∈ pens) :
    stock = pen "blue".toList ∨ stock = pen "red".toList := by
  simpa [pens] using member

theorem pens_verbatim : ∀ stock ∈ pens, stock.Verbatim some := by
  intro stock member
  rcases eq_pen_of_mem member with rfl | rfl <;>
    exact ⟨verbatim_some_iff.mpr (by decide), verbatim_some_iff.mpr (by decide),
      verbatim_some_iff.mpr (by decide)⟩

/-- Of two rows in one statement each, the second is refused. -/
theorem pens_table :
    ∃ saved lost, saved ++ lost = pens ∧
      (lost = [] ↔ Succeeds (fun index => if index = 0 then .rows 1 else .refused)
        (replaceAll (stockTable wholeNumber) (some 1001)
          (fun index => if index = 0 then .rows 1 else .refused) pens).2.length) ∧
      ∀ each, Succeeds each saved.length →
        pensServer.table (pensServer.after (fun _ => none)
            (fun index => if index = 0 then .rows 1 else .refused)
            (replaceAll (stockTable wholeNumber) (some 1001)
              (fun index => if index = 0 then .rows 1 else .refused) pens).2) =
          pensServer.table (pensServer.after (fun _ => none) each
            (replaceEach (stockTable wholeNumber) each saved)) :=
  (replaceAll_table pensServer plain_wholeNumber (fun _ => none) (some 1001) pens_verbatim _).2
    (by decide)

end Cncpp.Mysql

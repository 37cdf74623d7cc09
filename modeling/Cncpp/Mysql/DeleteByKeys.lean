import Cncpp.Mysql.ReplaceAll
import Cncpp.Sql.Element

/-!
# Deleting rows by their keys

`MysqlConn::deleteWhereByKeys` appends key after key to the list of one `DELETE` statement
and executes it as soon as its size reaches a limit.  The flag `isfirst` says whether the
list is empty.  The guard's `keyname.empty` is read as the call it means.

The keys are put between backticks.  The statements name every key once and in order, but
an element between backticks is an identifier and not a value.
-/

namespace Cncpp.Mysql

open Cncpp.Batch
open Cncpp.Loop
open Cncpp.Machine
open Cncpp.Sql

variable {Row : Type}

/-- `header_str`. -/
def Table.deleteHeader (db : Table Row) (keyname : Text) : Text :=
  "DELETE FROM `".toList ++ db.table ++ "` WHERE ".toList ++ keyname ++ " IN(".toList

/-- The variables of `deleteWhereByKeys`, with the texts executed so far. -/
structure Deleting where
  query : Text
  isfirst : Bool
  affectedRows : Nat
  sent : List Text
  deriving DecidableEq

namespace Deleting

/-- Close the list, `query.execute()` and what depends on its result. -/
def execute (answers : Nat → Executed) (state : Deleting) : Pass Deleting Result :=
  let query := state.query ++ [')']
  let sent := state.sent ++ [query]
  match answers state.sent.length with
  | .rows count =>
      .again { state with
        query := query
        affectedRows := uint32 (state.affectedRows + count)
        sent := sent }
  | .refused => .leave (state.affectedRows, sent)
  | .threw => .leave (2 ^ 32 - 1, sent)

/-- The texts that a pass of the loop appends, with the flag. -/
def append (state : Deleting) (key : Text) : Deleting :=
  if state.isfirst then { state with query := state.query ++ tick key, isfirst := false }
  else { state with query := state.query ++ ',' :: tick key }

/-- One pass of the loop over the container. -/
def deleteKey (header : Text) (maxSafe : Nat) (answers : Nat → Executed) (state : Deleting)
    (key : Text) : Pass Deleting Result :=
  let appended := append state key
  if maxSafe ≤ appended.query.length then
    match execute answers appended with
    | .again next => .again { next with query := header, isfirst := true }
    | .leave result => .leave result
  else .again appended

/-- The loop over the container. -/
def deleteKeys (header : Text) (maxSafe : Nat) (answers : Nat → Executed) :
    Deleting → List Text → Pass Deleting Result
  | state, [] => .again state
  | state, key :: rest =>
      match deleteKey header maxSafe answers state key with
      | .again next => deleteKeys header maxSafe answers next rest
      | .leave result => .leave result

/-- What follows the loop. -/
def deleteRest (answers : Nat → Executed) (state : Deleting) : Result :=
  if state.isfirst then (state.affectedRows, state.sent)
  else
    match execute answers state with
    | .again next => (next.affectedRows, next.sent)
    | .leave result => result

/-- What follows the loop, unless the loop returns. -/
def finish (answers : Nat → Executed) : Pass Deleting Result → Result
  | .again state => deleteRest answers state
  | .leave result => result

end Deleting

/-- `deleteWhereByKeys`. -/
def deleteWhereByKeys (db : Table Row) (shown : Option Nat) (answers : Nat → Executed)
    (keyname : Text) (cont : List Text) : Result :=
  if keyname.isEmpty ∨ cont.isEmpty then (0, [])
  else
    let maxSafe := getMaxSafeMysqlPacketSize shown
    if maxSafe = 0 then (0, [])
    else
      let header := db.deleteHeader keyname
      Deleting.finish answers
        (Deleting.deleteKeys header maxSafe answers ⟨header, true, 0, []⟩ cont)

/-! ## Statements -/

/-- The text for the keys of a batch, before its list is closed. -/
def deleteText (header : Text) (keys : List Text) : Text :=
  header ++ separated tick keys

/-- One statement for the keys of a batch. -/
def deleteStatement (header : Text) (keys : List Text) : Text :=
  deleteText header keys ++ [')']

/-- The text of a batch reaches the limit. -/
def deleteFull (header : Text) (maxSafe : Nat) (keys : List Text) : Bool :=
  decide (maxSafe ≤ (deleteText header keys).length)

/-- The keys of the statements. -/
def deleteParts (header : Text) (maxSafe : Nat) (cont : List Text) : List (List Text) :=
  batches (deleteFull header maxSafe) [] cont

/-- How the server reads a statement: the elements of the list behind the header. -/
def readDelete (escape : Char → Option Char) (header text : Text) : Option (List Element) :=
  if header.isPrefixOf text then
    match readElements escape (text.drop header.length) with
    | some (elements, [')']) => some elements
    | _ => none
  else none

/-- Deleting by exactly the given keys, whatever the answers of the server are.  Every
statement that is executed has some of the keys for the literals of its list, and together
they have all keys, each once and in order, if no `execute` fails. -/
def DeletesExactly (db : Table Row) (shown : Option Nat) (escape : Char → Option Char)
    (keyname : Text) (cont : List Text) : Prop :=
  ∀ answers, ∃ parts : List (List Text),
    (∀ part ∈ parts, part ≠ []) ∧
      (deleteWhereByKeys db shown answers keyname cont).2.map
          (readDelete escape (db.deleteHeader keyname)) =
        parts.map (fun part => some (part.map Element.literal)) ∧
      (Succeeds answers (deleteWhereByKeys db shown answers keyname cont).2.length →
        parts.flatten = cont)

/-! ## The lists of the statements -/

section Lists

variable {escape : Char → Option Char} {header : Text}

@[simp]
theorem deleteText_nil (header : Text) : deleteText header [] = header :=
  List.append_nil header

theorem deleteText_singleton (header key : Text) :
    deleteText header [key] = header ++ tick key := by
  rw [deleteText, separated_singleton]

theorem deleteText_concat (header : Text) {keys : List Text} (nonempty : keys ≠ [])
    (key : Text) :
    deleteText header (keys ++ [key]) = deleteText header keys ++ ',' :: tick key := by
  rw [deleteText, separated_concat nonempty, deleteText, List.append_assoc]

/-- A list of keys begins with a backtick. -/
theorem separated_tick_backtick {keys : List Text} (nonempty : keys ≠ []) :
    ∃ rest, separated tick keys = backtick :: rest := by
  cases keys with
  | nil => exact absurd rfl nonempty
  | cons key keys =>
      cases keys with
      | nil =>
          rw [separated_singleton]
          exact ⟨_, rfl⟩
      | cons next keys =>
          rw [separated_cons_cons]
          exact ⟨_, rfl⟩

/-- The keys as the elements that they are written as. -/
theorem separated_tick_eq (keys : List Text) :
    separated tick keys = separated Element.text (keys.map Element.identifier) := by
  rw [separated, separated, List.map_map]
  rfl

/-- What the list of a statement is read as. -/
theorem readDelete_eq (escape : Char → Option Char) (header : Text) (keys : List Text) :
    readDelete escape header (deleteStatement header keys) =
      match readElements escape (separated tick keys ++ [')']) with
      | some (elements, [')']) => some elements
      | _ => none := by
  have begins : header.isPrefixOf (header ++ (separated tick keys ++ [')'])) = true :=
    List.isPrefixOf_iff_prefix.mpr (List.prefix_append _ _)
  rw [deleteStatement, deleteText, List.append_assoc, readDelete, if_pos begins,
    List.drop_left]

/-- Keys without backticks are read as the identifiers of these names. -/
theorem readDelete_deleteStatement {keys : List Text} (nonempty : keys ≠ [])
    (plain : ∀ key ∈ keys, backtick ∉ key) :
    readDelete escape header (deleteStatement header keys) =
      some (keys.map Element.identifier) := by
  have verbatim : ∀ element ∈ keys.map Element.identifier, element.Verbatim escape := by
    intro element member
    obtain ⟨key, inside, rfl⟩ := List.mem_map.mp member
    exact plain key inside
  have read := readElements_separated (by simpa using nonempty) verbatim
    (notAhead_cons (by decide) []) (notAhead_cons (by decide) [])
    (notAhead_cons (by decide : ')' ≠ ',') [])
  rw [readDelete_eq, separated_tick_eq, read]
  rfl

/-- Whatever the keys are, the list of a statement is not read as literals. -/
theorem readDelete_ne_literals {keys : List Text} (nonempty : keys ≠ []) (contents : List Text) :
    readDelete escape header (deleteStatement header keys) ≠
      some (contents.map Element.literal) := by
  intro read
  obtain ⟨rest, begins⟩ := separated_tick_backtick nonempty
  rw [readDelete_eq, begins, List.cons_append] at read
  split at read
  · rename_i elements list
    obtain ⟨name, later, rfl⟩ := readElements_of_backtick list
    cases contents with
    | nil => exact absurd read (by simp)
    | cons content contents => exact absurd read (by simp)
  · exact absurd read (by simp)

end Lists

/-! ## The loop sends the statements of the batches -/

/-- The variables when the keys of a batch have been appended. -/
def Deleting.holding (header : Text) (batch : List Text) (affected : Nat)
    (sent : List Text) : Deleting :=
  ⟨deleteText header batch, batch.isEmpty, affected, sent⟩

/-- A result whose number is converted to `uint32_t`. -/
def Result.narrow (result : Result) : Result :=
  (uint32 result.1, result.2)

theorem uint32_minusOne : uint32 minusOne = 2 ^ 32 - 1 := by
  decide

/-- Adding in 32 bits and in 64 bits agree on the low 32 bits. -/
theorem uint32_add_eq (left right : Nat) :
    uint32 (uint32 left + right) = uint32 (uint64 (left + right)) := by
  rw [uint32_add_uint32, uint32_uint64]

namespace Deleting

variable {header : Text} {maxSafe : Nat} {answers : Nat → Executed}

theorem append_holding (header : Text) (batch : List Text) (affected : Nat) (sent : List Text)
    (key : Text) :
    append (holding header batch affected sent) key =
      holding header (batch ++ [key]) affected sent := by
  cases batch with
  | nil =>
      rw [List.nil_append, holding, holding, deleteText_nil, deleteText_singleton]
      rfl
  | cons first batch =>
      have text := deleteText_concat header (List.cons_ne_nil first batch) key
      rw [holding, holding, text]
      rfl

/-- A pass that fills the batch executes its statement. -/
theorem deleteKey_of_full {batch : List Text} {key : Text} {affected : Nat} {sent : List Text}
    (closed : deleteFull header maxSafe (batch ++ [key]) = true) :
    deleteKey header maxSafe answers (holding header batch affected sent) key =
      match answers sent.length with
      | .rows count =>
          .again (holding header [] (uint32 (affected + count))
            (sent ++ [deleteStatement header (batch ++ [key])]))
      | .refused => .leave (affected, sent ++ [deleteStatement header (batch ++ [key])])
      | .threw => .leave (2 ^ 32 - 1, sent ++ [deleteStatement header (batch ++ [key])]) := by
  have isFull : maxSafe ≤ (holding header (batch ++ [key]) affected sent).query.length :=
    of_decide_eq_true closed
  rw [deleteKey, append_holding]
  simp only [if_pos isFull]
  simp only [holding, execute, deleteText_nil, deleteStatement, List.isEmpty_nil]
  cases answers sent.length <;> rfl

/-- A pass that does not fill the batch keeps the key. -/
theorem deleteKey_of_not_full {batch : List Text} {key : Text} {affected : Nat}
    {sent : List Text} (going : deleteFull header maxSafe (batch ++ [key]) = false) :
    deleteKey header maxSafe answers (holding header batch affected sent) key =
      .again (holding header (batch ++ [key]) affected sent) := by
  have notFull : ¬maxSafe ≤ (holding header (batch ++ [key]) affected sent).query.length :=
    of_decide_eq_false going
  rw [deleteKey, append_holding]
  simp only [if_neg notFull]

/-- What follows the loop sends the last batch, if there is one. -/
theorem deleteRest_holding (header : Text) (answers : Nat → Executed) {batch : List Text}
    (nonempty : batch ≠ []) (affected : Nat) (sent : List Text) :
    deleteRest answers (holding header batch (uint32 affected) sent) =
      (deliver answers affected sent [deleteStatement header batch]).narrow := by
  obtain ⟨key, keys, rfl⟩ := List.exists_cons_of_ne_nil nonempty
  simp only [deleteRest, holding, execute, deliver, List.isEmpty_cons, Bool.false_eq_true,
    if_false]
  cases answers sent.length with
  | rows count =>
      simp only [Result.narrow, uint32_add_eq]
      rfl
  | refused => rfl
  | threw =>
      simp only [Result.narrow, uint32_minusOne]
      rfl

/-- The loop and what follows it send the statements of the batches, from any batch on, and
add up the rows in the arithmetic of `uint32_t`. -/
theorem finish_deleteKeys (header : Text) (maxSafe : Nat) (answers : Nat → Executed)
    (batch keys : List Text) (affected : Nat) (sent : List Text) :
    finish answers
        (deleteKeys header maxSafe answers (holding header batch (uint32 affected) sent) keys) =
      (deliver answers affected sent
        ((batches (deleteFull header maxSafe) batch keys).map
          (deleteStatement header))).narrow := by
  induction keys generalizing batch affected sent with
  | nil =>
      cases batch with
      | nil => rfl
      | cons key batch =>
          exact deleteRest_holding header answers (List.cons_ne_nil key batch) affected sent
  | cons key keys ih =>
      rw [deleteKeys, batches]
      cases closed : deleteFull header maxSafe (batch ++ [key]) with
      | true =>
          rw [deleteKey_of_full closed, if_pos rfl, List.map_cons, deliver]
          cases answers sent.length with
          | rows count =>
              simp only [uint32_add_eq]
              exact ih [] (uint64 (affected + count)) _
          | refused => rfl
          | threw =>
              simp only [Result.narrow, uint32_minusOne]
              rfl
      | false =>
          rw [deleteKey_of_not_full closed, if_neg Bool.false_ne_true]
          exact ih (batch ++ [key]) affected sent

end Deleting

variable {shown : Option Nat}

/-- `deleteWhereByKeys` executes the statements of the batches until one fails. -/
theorem deleteWhereByKeys_eq_deliver (db : Table Row)
    (positive : getMaxSafeMysqlPacketSize shown ≠ 0) (answers : Nat → Executed)
    {keyname : Text} (named : keyname ≠ []) (cont : List Text) :
    deleteWhereByKeys db shown answers keyname cont =
      (deliver answers 0 []
        ((deleteParts (db.deleteHeader keyname) (getMaxSafeMysqlPacketSize shown) cont).map
          (deleteStatement (db.deleteHeader keyname)))).narrow := by
  obtain ⟨c, rest, rfl⟩ := List.exists_cons_of_ne_nil named
  cases cont with
  | nil => rfl
  | cons key keys =>
      have start : Deleting.holding (db.deleteHeader (c :: rest)) [] (uint32 0) [] =
          ⟨db.deleteHeader (c :: rest), true, 0, []⟩ := by
        rw [Deleting.holding, deleteText_nil]
        rfl
      rw [deleteWhereByKeys, if_neg (by simp)]
      simp only [positive, if_false]
      rw [← start, Deleting.finish_deleteKeys]
      rfl

example :
    deleteWhereByKeys (⟨['t'], ['c'], id⟩ : Table Text) (some 1032) (fun _ => .rows 2) ['k']
        [['a'], ['b'], ['c']] =
      (4, ["DELETE FROM `t` WHERE k IN(`a`,`b`)".toList,
        "DELETE FROM `t` WHERE k IN(`c`)".toList]) := by
  decide +kernel

theorem deleteWhereByKeys_unnamed (db : Table Row) (answers : Nat → Executed)
    (cont : List Text) : deleteWhereByKeys db shown answers [] cont = (0, []) := by
  simp [deleteWhereByKeys]

/-- The parts hold the keys of the container, and none is empty. -/
theorem deleteParts_flatten (header : Text) (maxSafe : Nat) (cont : List Text) :
    (deleteParts header maxSafe cont).flatten = cont :=
  flatten_batches _ [] cont

theorem deleteParts_ne_nil {header : Text} {maxSafe : Nat} {cont : List Text}
    (nonempty : cont ≠ []) : deleteParts header maxSafe cont ≠ [] := by
  intro noParts
  apply nonempty
  rw [← deleteParts_flatten header maxSafe cont, noParts, List.flatten_nil]

/-- What is executed is the statement of a part. -/
theorem mem_deleteWhereByKeys {db : Table Row} (positive : getMaxSafeMysqlPacketSize shown ≠ 0)
    {answers : Nat → Executed} {keyname : Text} (named : keyname ≠ []) {cont : List Text}
    {text : Text} (member : text ∈ (deleteWhereByKeys db shown answers keyname cont).2) :
    ∃ part ≠ [], deleteStatement (db.deleteHeader keyname) part = text := by
  rw [deleteWhereByKeys_eq_deliver db positive answers named] at member
  have inside := (deliver_isPrefix answers 0 [] _).subset member
  obtain ⟨part, isPart, same⟩ := List.mem_map.mp inside
  exact ⟨part, batches_ne_nil isPart, same⟩

/-- Nothing that is executed is read as a list of literals. -/
theorem readDelete_sent_ne_literals {db : Table Row}
    (positive : getMaxSafeMysqlPacketSize shown ≠ 0) (escape : Char → Option Char)
    {answers : Nat → Executed} {keyname : Text} (named : keyname ≠ []) {cont : List Text}
    {text : Text} (member : text ∈ (deleteWhereByKeys db shown answers keyname cont).2)
    (contents : List Text) :
    readDelete escape (db.deleteHeader keyname) text ≠ some (contents.map Element.literal) := by
  obtain ⟨part, nonempty, rfl⟩ := mem_deleteWhereByKeys positive named member
  exact readDelete_ne_literals nonempty contents

theorem deleteWhereByKeys_sent_ne_nil (db : Table Row)
    (positive : getMaxSafeMysqlPacketSize shown ≠ 0) (answers : Nat → Executed)
    {keyname : Text} (named : keyname ≠ []) {cont : List Text} (nonempty : cont ≠ []) :
    (deleteWhereByKeys db shown answers keyname cont).2 ≠ [] := by
  rw [deleteWhereByKeys_eq_deliver db positive answers named]
  apply deliver_ne_nil
  rw [ne_eq, List.map_eq_nil_iff]
  exact deleteParts_ne_nil nonempty

/-- No container of keys is deleted by exactly its keys. -/
theorem not_deletesExactly (db : Table Row) (positive : getMaxSafeMysqlPacketSize shown ≠ 0)
    (escape : Char → Option Char) (keyname : Text) {cont : List Text} (nonempty : cont ≠ []) :
    ¬ DeletesExactly db shown escape keyname cont := by
  intro exactly
  obtain ⟨parts, _, read, whole⟩ := exactly fun _ => .rows 0
  by_cases named : keyname = []
  · -- Without a name nothing is executed, and no key is named.
    rw [named, deleteWhereByKeys_unnamed] at read whole
    have noParts : parts = [] := List.map_eq_nil_iff.mp read.symm
    rw [noParts] at whole
    exact nonempty (whole fun index below => absurd below (Nat.not_lt_zero index)).symm
  · obtain ⟨text, rest, sent⟩ := List.exists_cons_of_ne_nil
      (deleteWhereByKeys_sent_ne_nil db positive (fun _ => .rows 0) named nonempty)
    have member : text ∈ (deleteWhereByKeys db shown (fun _ => .rows 0) keyname cont).2 := by
      rw [sent]
      exact List.mem_cons_self
    have among := List.mem_map_of_mem (f := readDelete escape (db.deleteHeader keyname)) member
    rw [read] at among
    obtain ⟨part, _, same⟩ := List.mem_map.mp among
    exact readDelete_sent_ne_literals positive escape named member part same.symm

/-- The statements are well formed and name every key once and in order, as far as no
`execute` fails.  But none of their lists is one of literals, so that no container of keys
is deleted by exactly its keys. -/
theorem deleteWhereByKeys_never_exact (db : Table Row) {shown : Option Nat}
    (positive : getMaxSafeMysqlPacketSize shown ≠ 0) (escape : Char → Option Char)
    (keyname : Text) {cont : List Text} (nonempty : cont ≠ []) :
    ¬ DeletesExactly db shown escape keyname cont ∧
      (keyname ≠ [] →
        ∃ parts : List (List Text),
          parts.flatten = cont ∧ (∀ part ∈ parts, part ≠ []) ∧
            ∀ answers,
              (deleteWhereByKeys db shown answers keyname cont).2 <+:
                  parts.map (deleteStatement (db.deleteHeader keyname)) ∧
                (Succeeds answers parts.length →
                  deleteWhereByKeys db shown answers keyname cont =
                    (uint32 (rowsTotal answers parts.length),
                      parts.map (deleteStatement (db.deleteHeader keyname)))) ∧
                ∀ text ∈ (deleteWhereByKeys db shown answers keyname cont).2,
                  ∀ contents : List Text,
                    readDelete escape (db.deleteHeader keyname) text ≠
                      some (contents.map Element.literal)) := by
  refine ⟨not_deletesExactly db positive escape keyname nonempty, fun named => ?_⟩
  refine ⟨deleteParts (db.deleteHeader keyname) (getMaxSafeMysqlPacketSize shown) cont,
    deleteParts_flatten _ _ cont, fun part => batches_ne_nil, fun answers => ⟨?_, ?_, ?_⟩⟩
  · rw [deleteWhereByKeys_eq_deliver db positive answers named]
    exact deliver_isPrefix answers 0 [] _
  · intro succeeds
    rw [deleteWhereByKeys_eq_deliver db positive answers named,
      deliver_all (by simpa using succeeds), List.length_map, Result.narrow, uint32_uint64]
  · exact fun text member contents =>
      readDelete_sent_ne_literals positive escape named member contents

theorem pair_never_exact :
    ¬ DeletesExactly (⟨['t'], ['c'], id⟩ : Table Text) (some 1032) some ['k'] [['a'], ['b']] :=
  (deleteWhereByKeys_never_exact _ (by decide) some ['k'] (by decide)).1

/-- The key `a` is sent as the name of a column. -/
theorem key_sent_as_identifier :
    let users : Table Text := ⟨"user".toList, "id".toList, id⟩
    let sent := "DELETE FROM `user` WHERE id IN(`a`)".toList
    deleteWhereByKeys users (some 2000) (fun _ => .rows 1) "id".toList [['a']] = (1, [sent]) ∧
      readDelete some (users.deleteHeader "id".toList) sent = some [.identifier ['a']] ∧
      ¬ DeletesExactly users (some 2000) some "id".toList [['a']] := by
  refine ⟨by decide +kernel, by decide +kernel, ?_⟩
  exact not_deletesExactly _ (by decide) some _ (List.cons_ne_nil _ _)

end Cncpp.Mysql

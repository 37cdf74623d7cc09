import Cncpp.Mysql.Import

/-!
# Loading rows

`MysqlConn::loadWhere` selects the rows of a table and makes an object of each by the
constructor that takes a row of the result.  Where a constructor throws, it returns no row
at all.

Of mysql++ it is used that `storein` constructs the objects in the order of the result, and
that `row[name]` is the field with that name.  The conversions of a field to a number are
parameters; they are none where they throw.
-/

namespace Cncpp.Mysql

open Cncpp.Machine
open Cncpp.Sql
open Cncpp.Sql.Keyed

variable {Double : Type}

/-- A row of a result: its fields with their names. -/
abbrev ResultRow := List (Text × Text)

/-- The conversions of `mysqlpp::String`. -/
structure Conversions (Double : Type) where
  toUInt64 : Text → Option UInt64
  toDouble : Text → Option Double

/-- The constructor of `Stock` from a row; none where it throws. -/
def Stock.ofRow (conversions : Conversions Double) (row : ResultRow) :
    Option (Stock Double) := do
  let item ← row.lookup "item".toList
  let num ← (row.lookup "num".toList).bind conversions.toUInt64
  let weight ← (row.lookup "weight".toList).bind conversions.toDouble
  let price ← (row.lookup "price".toList).bind conversions.toDouble
  let sdate ← row.lookup "sdate".toList
  let description ← row.lookup "description".toList
  pure ⟨item, num, weight, price, sdate, description⟩

/-- The text of the query of `loadWhere`. -/
def selectText {Row : Type} (db : Table Row) (condition : Text) : Text :=
  let query := "SELECT ".toList ++ db.fieldList ++ " FROM ".toList ++ db.table
  if condition.length ≠ 0 then query ++ " WHERE ".toList ++ condition else query

/-- `loadWhere`, with the text of its query.  The query is answered with rows, or it throws. -/
def loadWhere {Row : Type} (db : Table Row) (construct : ResultRow → Option Row)
    (condition : Text) (answer : Option (List ResultRow)) : List Row × Text :=
  match answer.bind fun rows => rows.mapM construct with
  | some res => (res, selectText db condition)
  | none => ([], selectText db condition)

/-! ## Constructing the rows -/

section Construct

variable {Content Row : Type} {construct : Content → Option Row} {contents : Row → Content}

/-- Contents that are those of their objects are constructed one by one. -/
theorem mapM_contents {listed : List Content}
    (each : ∀ content ∈ listed, ∃ row, construct content = some row ∧ contents row = content) :
    ∃ rows, listed.mapM construct = some rows ∧ rows.map contents = listed ∧
      ∀ row ∈ rows, construct (contents row) = some row := by
  induction listed with
  | nil => exact ⟨[], rfl, rfl, fun row member => absurd member List.not_mem_nil⟩
  | cons content listed ih =>
      obtain ⟨row, constructed, rfl⟩ := each content List.mem_cons_self
      obtain ⟨rows, mapped, back, all⟩ :=
        ih fun other member => each other (List.mem_cons_of_mem _ member)
      refine ⟨row :: rows, ?_, ?_, ?_⟩
      · rw [List.mapM_cons, constructed, mapped]
        rfl
      · rw [List.map_cons, back]
      · intro other member
        rcases List.mem_cons.mp member with rfl | later
        · exact constructed
        · exact all other later

/-- One content that cannot be constructed is enough to lose all. -/
theorem mapM_none {listed : List Content} {content : Content} (member : content ∈ listed)
    (fails : construct content = none) : listed.mapM construct = none := by
  induction listed with
  | nil => exact absurd member List.not_mem_nil
  | cons first listed ih =>
      rw [List.mapM_cons]
      rcases List.mem_cons.mp member with rfl | later
      · rw [fails]
        rfl
      · rw [ih later]
        cases construct first <;> rfl

end Construct

/-! ## The rows that are selected -/

/-- The names of the columns. -/
def columnNames : List Text :=
  ["item".toList, "num".toList, "weight".toList, "price".toList, "sdate".toList,
    "description".toList]

/-- A row of the table, with the names of the columns. -/
def resultRow (content : List Text) : ResultRow :=
  columnNames.zip content

/-- A server's answer to the selection of columns of the stock table. -/
structure Selected {Key : Type} [DecidableEq Key] (key : List Text → Key)
    (table : Rows Key (List Text)) (text : Text) (result : List ResultRow) : Prop where
  text_eq : text = "SELECT ".toList ++ [',', ' '].intercalate columnNames ++ " FROM stock".toList
  lists : ∃ listed, Lists key table listed ∧ result = listed.map resultRow

/-- What comes back of a row. -/
def reload (toString : Double → Text) (conversions : Conversions Double)
    (stock : Stock Double) : Option (Stock Double) :=
  Stock.ofRow conversions (resultRow (stock.contents toString))

/-- The row is the last one of its key. -/
def IsLast {Key : Type} [DecidableEq Key] (key : Stock Double → Key)
    (rows : List (Stock Double)) (stock : Stock Double) : Prop :=
  (rows.filter fun other => key other = key stock).getLast? = some stock

section Load

variable {Key : Type} [DecidableEq Key] (key : List Text → Key) (toString : Double → Text)

/-- The key of a row. -/
def keyOf (stock : Stock Double) : Key :=
  key (stock.contents toString)

/-- A table into which rows have been saved lists the last row of each key. -/
theorem mem_lists {rows : List (Stock Double)} {listed : List (List Text)}
    (lists : Lists key (saveAll key (fun _ => none) (rows.map (Stock.contents toString))) listed)
    (content : List Text) :
    content ∈ listed ↔
      ∃ stock, IsLast (keyOf key toString) rows stock ∧ stock.contents toString = content := by
  rw [lists.mem, saveAll_apply, Option.or_none, List.filter_map, List.getLast?_map,
    Option.map_eq_some_iff]
  constructor
  · rintro ⟨stock, last, rfl⟩
    exact ⟨stock, last, rfl⟩
  · rintro ⟨stock, last, rfl⟩
    exact ⟨stock, last, rfl⟩

variable {key toString} {conversions : Conversions Double} {rows : List (Stock Double)}
  {result : List ResultRow} {table : Rows Key (List Text)}

/-- The table holds the last row of each key. -/
abbrev Holds (key : List Text → Key) (toString : Double → Text) (rows : List (Stock Double))
    (table : Rows Key (List Text)) : Prop :=
  table = saveAll key (fun _ => none) (rows.map (Stock.contents toString))

/-- Rows that come back are all loaded, each once. -/
theorem loadWhere_last (holds : Holds key toString rows table) {text : Text}
    (selected : Selected key table text result)
    (back : ∀ stock, IsLast (keyOf key toString) rows stock →
      reload toString conversions stock = some stock) :
    let loaded :=
      (loadWhere (stockTable toString) (Stock.ofRow conversions) [] (some result)).1
    (loaded.map (keyOf key toString)).Nodup ∧
      ∀ stock, stock ∈ loaded ↔ IsLast (keyOf key toString) rows stock := by
  obtain ⟨_, listed, lists, rfl⟩ := selected
  subst holds
  have each : ∀ content ∈ listed, ∃ stock,
      Stock.ofRow conversions (resultRow content) = some stock ∧
        stock.contents toString = content := by
    intro content member
    obtain ⟨stock, last, rfl⟩ := (mem_lists key toString lists content).mp member
    exact ⟨stock, back stock last, rfl⟩
  obtain ⟨loaded, mapped, contents, all⟩ := mapM_contents each
  have returned : (loadWhere (stockTable toString) (Stock.ofRow conversions) []
      (some (listed.map resultRow))).1 = loaded := by
    have all : (listed.map resultRow).mapM (Stock.ofRow conversions) = some loaded := by
      rw [List.mapM_map]
      exact mapped
    rw [loadWhere, Option.bind_some, all]
  rw [returned]
  constructor
  · have nodup := lists.nodup
    rw [← contents, List.map_map] at nodup
    exact nodup
  · intro stock
    constructor
    · intro member
      have inside : stock.contents toString ∈ listed := by
        rw [← contents]
        exact List.mem_map_of_mem member
      obtain ⟨last, isLast, same⟩ := (mem_lists key toString lists _).mp inside
      have loads := back last isLast
      rw [reload, same] at loads
      rw [Option.some.inj ((all stock member).symm.trans loads)]
      exact isLast
    · intro isLast
      have inside := (mem_lists key toString lists _).mpr ⟨stock, isLast, rfl⟩
      rw [← contents] at inside
      obtain ⟨other, member, same⟩ := List.mem_map.mp inside
      have loads := back stock isLast
      rw [reload, ← same] at loads
      rw [← Option.some.inj ((all other member).symm.trans loads)]
      exact member

/-- A row that cannot be constructed hides all rows. -/
theorem loadWhere_nothing (holds : Holds key toString rows table) {text : Text}
    (selected : Selected key table text result)
    (fails : ∃ stock, IsLast (keyOf key toString) rows stock ∧
      reload toString conversions stock = none) :
    (loadWhere (stockTable toString) (Stock.ofRow conversions) [] (some result)).1 = [] := by
  obtain ⟨_, listed, lists, rfl⟩ := selected
  obtain ⟨stock, last, failing⟩ := fails
  subst holds
  have inside := (mem_lists key toString lists _).mpr ⟨stock, last, rfl⟩
  rw [loadWhere, Option.bind_some, mapM_none (List.mem_map_of_mem inside) failing]

end Load

/-- What `load` finds after `test_replaceall` has imported a readable file, in whatever order
the server lists the table.  Where the fields of the last row of each key convert back, these
rows are loaded, each once, and no others.  Where a field of one of them does not convert,
`loadWhere` returns no row. -/
theorem loadWhere_imported {Key : Type} [DecidableEq Key] {escape : Char → Option Char}
    {toString : Double → Text} {key : List Text → Key} {Store : Type}
    (server : Server escape toString key Store) {stod : Text → Option Double}
    (conversions : Conversions Double)
    (plain : ∀ value, Plain (toString value)) (store : Store) {rows : List (Stock Double)}
    {fuel : Nat}
    (printable : ∀ stock ∈ rows, Printable toString stod stock)
    (readable : ∀ stock ∈ rows, Readable stock)
    (verbatim : ∀ stock ∈ rows, stock.Verbatim escape)
    (enough : (file toString rows).length < fuel) (shown : Option Nat)
    (answers : Nat → Executed) :
    ∃ texts, testReplaceall toString stod fuel shown answers (some (file toString rows)) [] =
        some (some texts) ∧
      ((∃ count, answers 0 = .rows count) →
        Succeeds (fun index => answers (texts.length - rows.length + index)) rows.length →
        ∀ result,
          Selected key (server.table (server.after store answers texts))
            (selectText (stockTable toString) []) result →
          let loaded :=
            (loadWhere (stockTable toString) (Stock.ofRow conversions) [] (some result)).1
          ((∀ stock, IsLast (keyOf key toString) rows stock →
              reload toString conversions stock = some stock) →
            (loaded.map (keyOf key toString)).Nodup ∧
              ∀ stock, stock ∈ loaded ↔ IsLast (keyOf key toString) rows stock) ∧
          ((∃ stock, IsLast (keyOf key toString) rows stock ∧
              reload toString conversions stock = none) →
            loaded = [])) :=
  ⟨_, testReplaceall_file printable readable enough shown answers,
    fun deleted good _ selected =>
      have holds := after_importTexts server plain store verbatim shown deleted good
      ⟨loadWhere_last holds selected, loadWhere_nothing holds selected⟩⟩

/-- Conversions of the texts of whole numbers. -/
def wholeConversions : Conversions Nat where
  toUInt64 text := some (UInt64.ofNat (Nat.ofDigitChars 10 text 0))
  toDouble := stodWhole

/-- Of two rows with one item the second is loaded. -/
theorem pens_loaded :
    ∃ texts, testReplaceall wholeNumber stodWhole 100 none (fun _ => .rows 1)
        (some (file wholeNumber pens)) [] = some (some texts) ∧
      ∃ result, Selected List.head?
          (pensServer.table (pensServer.after (fun _ => none) (fun _ => .rows 1) texts))
          (selectText (stockTable wholeNumber) []) result ∧
        ∀ stock,
          stock ∈ (loadWhere (stockTable wholeNumber) (Stock.ofRow wholeConversions) []
              (some result)).1 ↔
            IsLast (keyOf List.head? wholeNumber) pens stock := by
  have good : Succeeds (fun _ => .rows 1) 2 := fun _ _ => ⟨1, rfl⟩
  have becomes : Holds List.head? wholeNumber pens
      (pensServer.table (pensServer.after (fun _ => none) (fun _ => .rows 1) _)) :=
    after_importTexts pensServer plain_wholeNumber (fun _ => none) pens_verbatim none ⟨1, rfl⟩ good
  obtain ⟨texts, sent, loads⟩ := loadWhere_imported pensServer wholeConversions
    plain_wholeNumber (fun _ => none) pens_printable pens_readable pens_verbatim pens_enough none
    fun _ => .rows 1
  have same := sent.symm.trans
    (testReplaceall_file pens_printable pens_readable pens_enough none fun _ => .rows 1)
  have selected : Selected List.head?
      (pensServer.table (pensServer.after (fun _ => none) (fun _ => .rows 1) texts))
      (selectText (stockTable wholeNumber) [])
      [resultRow ((pen "red".toList).contents wholeNumber)] := by
    refine ⟨rfl, [(pen "red".toList).contents wholeNumber], ⟨?_, by simp⟩, rfl⟩
    intro row
    rw [Option.some.inj (Option.some.inj same), becomes]
    simp only [pens, List.map_cons, List.map_nil, saveAll_cons, saveAll_nil, save,
      Function.update_apply, List.mem_singleton]
    constructor
    · rintro rfl
      rfl
    · intro found
      split at found
      · exact (Option.some.inj found).symm
      · split at found
        · contradiction
        · contradiction
  refine ⟨texts, sent, _, selected, ?_⟩
  refine ((loads ⟨1, rfl⟩ good _ selected).1 ?_).2
  intro stock last
  rcases eq_pen_of_mem (List.mem_of_mem_filter (List.mem_of_getLast? last)) with rfl | rfl
  · rfl
  · rfl

end Cncpp.Mysql

import Cncpp.Mysql.ReplaceAll
import Cncpp.Sql.Literal

/-!
# Rows of the stock table

`Stock::value_list` puts the members between quotes as they are.  The statements read back
to the rows exactly when the three strings are verbatim contents of a literal.

The type `double` and its `std::to_string`, which prints digits, a point, a sign or the
names of the special values, are parameters.
-/

namespace Cncpp.Mysql

open Cncpp.Machine
open Cncpp.Sql

variable {Double : Type}

/-- The members of `Stock`. -/
structure Stock (Double : Type) where
  item : Text
  num : UInt64
  weight : Double
  price : Double
  sdate : Text
  description : Text

/-- `std::to_string(uint64_t)`. -/
def decimal (value : UInt64) : Text :=
  Nat.toDigits 10 value.toNat

namespace Stock

/-- `field_list`. -/
def fieldList : Text :=
  "item, num, weight, price, sdate, description".toList

/-- `value_list`. -/
def valueList (toString : Double → Text) (stock : Stock Double) : Text :=
  let singlequote := ['\'']
  let connStr := singlequote ++ [','] ++ singlequote
  singlequote ++ stock.item ++ connStr ++ decimal stock.num ++ connStr ++
    toString stock.weight ++ connStr ++ toString stock.price ++ connStr ++
    stock.sdate ++ connStr ++ stock.description ++ singlequote

/-- `table`. -/
def table : Text :=
  "stock".toList

/-- The columns and what they should hold. -/
def columns (toString : Double → Text) (stock : Stock Double) : List (Text × Text) :=
  [("item".toList, stock.item), ("num".toList, decimal stock.num),
    ("weight".toList, toString stock.weight), ("price".toList, toString stock.price),
    ("sdate".toList, stock.sdate), ("description".toList, stock.description)]

/-- What the literals should hold, in the order of the columns. -/
def contents (toString : Double → Text) (stock : Stock Double) : List Text :=
  (stock.columns toString).map Prod.snd

/-- The strings of the row stand for themselves between quotes. -/
def Verbatim (escape : Char → Option Char) (stock : Stock Double) : Prop :=
  Sql.Verbatim escape stock.item ∧ Sql.Verbatim escape stock.sdate ∧
    Sql.Verbatim escape stock.description

end Stock

/-- `Stock` as the row type of `replaceAll` and `replaceDB`. -/
def stockTable (toString : Double → Text) : Table (Stock Double) :=
  { table := Stock.table, fieldList := Stock.fieldList, valueList := Stock.valueList toString }

/-! ## Texts as sequences of literals -/

section Shape

variable (toString : Double → Text)

theorem fieldList_columns (stock : Stock Double) :
    Stock.fieldList = [',', ' '].intercalate ((stock.columns toString).map Prod.fst) :=
  rfl

theorem contents_ne_nil (stock : Stock Double) : stock.contents toString ≠ [] :=
  List.cons_ne_nil _ _

theorem valueList_eq (stock : Stock Double) :
    stock.valueList toString = separated quote (stock.contents toString) := by
  simp [Stock.valueList, Stock.contents, Stock.columns, separated_cons_cons, quote]

theorem tuple_eq (stock : Stock Double) :
    (stockTable toString).tuple stock = tuple (stock.contents toString) := by
  have values : (stockTable toString).valueList stock = separated quote (stock.contents toString) :=
    valueList_eq toString stock
  rw [Table.tuple, values, tuple]

theorem statement_eq (batch : List (Stock Double)) :
    (stockTable toString).statement batch =
      (stockTable toString).head ++ separated tuple (batch.map (Stock.contents toString)) := by
  have tuples : batch.map (stockTable toString).tuple =
      batch.map (tuple ∘ Stock.contents toString) :=
    List.map_congr_left fun stock _ => tuple_eq toString stock
  rw [Table.statement, tuples, separated, List.map_map]

end Shape

theorem plain_toDigits (value : Nat) : Plain (Nat.toDigits 10 value) := by
  intro c member
  have digit : c.isDigit = true := Nat.isDigit_of_mem_toDigits (by decide) (by decide) member
  constructor
  · rintro rfl
    exact absurd digit (by decide)
  · rintro rfl
    exact absurd digit (by decide)

/-- Of the contents only the strings can fail to be verbatim. -/
theorem verbatim_contents_iff {escape : Char → Option Char} {toString : Double → Text}
    (plain : ∀ value, Plain (toString value)) (stock : Stock Double) :
    (∀ content ∈ stock.contents toString, Sql.Verbatim escape content) ↔
      stock.Verbatim escape := by
  simp [Stock.contents, Stock.columns, Stock.Verbatim, decimal,
    (plain_toDigits stock.num.toNat).verbatim,
    (plain stock.weight).verbatim, (plain stock.price).verbatim]

/-- The literals of a row read back exactly when its strings are verbatim. -/
theorem valueList_reads_iff {escape : Char → Option Char} {toString : Double → Text}
    (plain : ∀ value, Plain (toString value)) {stock : Stock Double} {rest : Text}
    (noQuote : NotAhead '\'' rest) (noComma : NotAhead ',' rest) :
    readValues escape (stock.valueList toString ++ rest) =
        some (stock.contents toString, rest) ↔
      stock.Verbatim escape := by
  rw [valueList_eq, readValues_iff (contents_ne_nil toString stock) noQuote noComma,
    verbatim_contents_iff plain]

/-- The rows of a statement read back exactly when their strings are verbatim. -/
theorem statement_reads_iff {escape : Char → Option Char} {toString : Double → Text}
    (plain : ∀ value, Plain (toString value)) {batch : List (Stock Double)}
    (nonempty : batch ≠ []) :
    readStatement escape (stockTable toString).head ((stockTable toString).statement batch) =
        some (batch.map (Stock.contents toString)) ↔
      ∀ stock ∈ batch, stock.Verbatim escape := by
  have rows : batch.map (Stock.contents toString) ≠ [] := by simpa using nonempty
  have filled : ∀ row ∈ batch.map (Stock.contents toString), row ≠ [] := by
    intro row member
    obtain ⟨stock, _, rfl⟩ := List.mem_map.mp member
    exact contents_ne_nil toString stock
  rw [statement_eq, readStatement_iff rows filled]
  simp only [List.forall_mem_map, verbatim_contents_iff plain]

/-- The rows of the statements that `replaceAll` executes are rows of the container. -/
theorem replaceAll_reads {escape : Char → Option Char} {toString : Double → Text}
    (plain : ∀ value, Plain (toString value)) {shown : Option Nat} {answers : Nat → Executed}
    {cont : List (Stock Double)} (verbatim : ∀ stock ∈ cont, stock.Verbatim escape) {text : Text}
    (member : text ∈ (replaceAll (stockTable toString) shown answers cont).2) :
    ∃ batch : List (Stock Double), (∀ stock ∈ batch, stock ∈ cont) ∧
      readStatement escape (stockTable toString).head text =
        some (batch.map (Stock.contents toString)) := by
  obtain ⟨batch, inside, rfl⟩ := mem_replaceAll member
  have part : ∀ stock ∈ batch, stock ∈ cont := by
    intro stock present
    have flat := List.mem_flatten_of_mem inside present
    rwa [Batch.flatten_batches, List.nil_append] at flat
  refine ⟨batch, part, ?_⟩
  rw [statement_reads_iff plain (Batch.batches_ne_nil inside)]
  exact fun stock present => verbatim stock (part stock present)

/-- The row that `replaceDB` executes. -/
theorem replaceDB_reads {escape : Char → Option Char} {toString : Double → Text}
    (plain : ∀ value, Plain (toString value)) {stock : Stock Double}
    (verbatim : stock.Verbatim escape) (answer : Executed) {text : Text}
    (member : text ∈ (replaceDB (stockTable toString) answer stock).2) :
    readStatement escape (stockTable toString).head text =
      some [stock.contents toString] := by
  rw [replaceDB_sent, List.mem_singleton] at member
  rw [member]
  exact (statement_reads_iff plain (List.cons_ne_nil stock [])).mpr (by simpa using verbatim)

/-- A row reads back to its members, in the order of the columns and whatever follows it,
exactly when its strings are verbatim; and the statement for a batch reads back to its rows
exactly when all their strings are. -/
theorem stock_survives_iff (escape : Char → Option Char) (toString : Double → Text)
    (plain : ∀ value, Plain (toString value)) :
    (∀ stock : Stock Double,
      (∀ rest, NotAhead '\'' rest → NotAhead ',' rest →
        readValues escape (stock.valueList toString ++ rest) =
          some (stock.contents toString, rest)) ↔
        stock.Verbatim escape) ∧
    ∀ batch : List (Stock Double), batch ≠ [] →
      (readStatement escape (stockTable toString).head ((stockTable toString).statement batch) =
          some (batch.map (Stock.contents toString)) ↔
        ∀ stock ∈ batch, stock.Verbatim escape) := by
  constructor
  · intro stock
    constructor
    · intro reads
      have atEnd := reads [] (notAhead_nil '\'') (notAhead_nil ',')
      exact (valueList_reads_iff plain (notAhead_nil '\'') (notAhead_nil ',')).mp atEnd
    · intro verbatim rest noQuote noComma
      exact (valueList_reads_iff plain noQuote noComma).mpr verbatim
  · exact fun batch nonempty => statement_reads_iff plain nonempty

/-- The text of a `double` without a fractional part. -/
def wholeNumber (value : Nat) : Text :=
  Nat.toDigits 10 value ++ ".000000".toList

theorem plain_wholeNumber (value : Nat) : Plain (wholeNumber value) := by
  intro c member
  rcases List.mem_append.mp member with digits | fraction
  · exact plain_toDigits value c digits
  · have all : Plain ".000000".toList := by decide
    exact all c fraction

/-- A row of the table. -/
def pen (description : Text) : Stock Nat :=
  ⟨"pen".toList, 12, 3, 4, "2024-01-01".toList, description⟩

/-- A description with an apostrophe does not come back, and a description can hold the
quotes that make two rows of one. -/
theorem apostrophe_not_read :
    readValues some ((pen "it's".toList).valueList wholeNumber) ≠
        some ((pen "it's".toList).contents wholeNumber, []) ∧
      readStatement some (stockTable wholeNumber).head
          ((stockTable wholeNumber).statement
            [pen "x'),('ink','1','1','1','2024-01-01','y".toList]) =
        some [(pen ['x']).contents wholeNumber,
          ["ink", "1", "1", "1", "2024-01-01", "y"].map String.toList] := by
  decide

theorem pen_survives :
    readStatement some (stockTable wholeNumber).head
        ((stockTable wholeNumber).statement [pen "blue".toList]) =
      some [(pen "blue".toList).contents wholeNumber] := by
  refine ((stock_survives_iff some wholeNumber plain_wholeNumber).2 [pen "blue".toList]
    (List.cons_ne_nil _ _)).mpr ?_
  intro stock member
  rw [List.mem_singleton.mp member]
  exact ⟨verbatim_some_iff.mpr (by decide), verbatim_some_iff.mpr (by decide),
    verbatim_some_iff.mpr (by decide)⟩

end Cncpp.Mysql

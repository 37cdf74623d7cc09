import Cncpp.Mysql.Saved
import Cncpp.Stream.Getline
import Mathlib.Algebra.Group.Int.Defs
import Mathlib.Data.List.TakeWhile

/-!
# Importing stock rows from a file

`read_stock_items` reads a file line by line, splits every line at its tabs, and makes a row
of every line with six fields.  `test_replaceall` empties the table, saves the rows with
`replaceAll`, and saves each of them once more with `replaceDB`.

The contents of the file are what the stream delivers.  `std::stod` is a parameter.  A
constructor of `Stock` throws where a conversion does, and the exception ends the import.
-/

namespace Cncpp.Mysql

open Cncpp.Loop
open Cncpp.Machine
open Cncpp.Sql
open Cncpp.Sql.Keyed
open Cncpp.Stream

variable {Double : Type}

/-- `isspace`, in the "C" locale. -/
def isspace (c : Char) : Bool :=
  c == ' ' || (9 ≤ c.toNat && c.toNat ≤ 13)

/-- The sign that a number may begin with: whether it is negative, and the rest. -/
def sign : Text → Bool × Text
  | '-' :: rest => (true, rest)
  | '+' :: rest => (false, rest)
  | text => (false, text)

/-- `std::stoll`; none where it throws. -/
def stoll (text : Text) : Option Int :=
  let (negative, rest) := sign (text.dropWhile isspace)
  let digits := rest.takeWhile Char.isDigit
  if digits = [] then none
  else
    let magnitude : Int := Nat.ofDigitChars 10 digits 0
    let value := if negative then -magnitude else magnitude
    if -2 ^ 63 ≤ value ∧ value < 2 ^ 63 then some value else none

/-- The constructor of `Stock` from strings; none where it throws. -/
def Stock.ofStrings (stod : Text → Option Double)
    (item num weight price sdate description : Text) : Option (Stock Double) := do
  let num ← stoll num
  let weight ← stod weight
  let price ← stod price
  pure ⟨item, UInt64.ofInt num, weight, price, sdate, description⟩

/-- `tokenize_line`: the fields, whose number it returns.  The bound on the passes is
reached only if the loop does not end. -/
def tokenizeLine (line : Text) : Option (List Text) :=
  run (linePass '\t' (fun strings field => .again (strings ++ [field])) id)
    (line.length + 1) (line, [])

/-- What a line adds to the rows.  The loop is left with none where a constructor throws. -/
def readLine (stod : Text → Option Double) (stockVector : List (Stock Double)) (line : Text) :
    Pass (List (Stock Double)) (Option (List (Stock Double))) :=
  match tokenizeLine line with
  | some [item, num, weight, price, sdate, description] =>
      match Stock.ofStrings stod item num weight price sdate description with
      | some stock => .again (stockVector ++ [stock])
      | none => .leave none
  | _ => .again stockVector

/-- The loop of `read_stock_items` over the lines of the opened file.  The outer option is
none when the bound on the passes is reached, the inner one when the call throws. -/
def readStockItems (stod : Text → Option Double) (fuel : Nat) (input : Text)
    (stockVector : List (Stock Double)) : Option (Option (List (Stock Double))) :=
  run (linePass '\n' (readLine stod) some) fuel (input, stockVector)

/-- The fields are the pieces of the line. -/
theorem tokenizeLine_eq (line : Text) : tokenizeLine line = some (pieces '\t' line) := by
  rw [tokenizeLine, run_linePass _ _ [] (Nat.lt_succ_self _), overPieces_collect,
    List.nil_append]

/-- The rows are those of the pieces of the file. -/
theorem readStockItems_eq (stod : Text → Option Double) {fuel : Nat} {input : Text}
    (enough : input.length < fuel) (stockVector : List (Stock Double)) :
    readStockItems stod fuel input stockVector =
      some (overPieces (readLine stod) some stockVector (pieces '\n' input)) :=
  run_linePass _ _ stockVector enough

/-! ## Numbers -/

/-- Digits are read as they are, if they do not stand for too great a number. -/
theorem stoll_digits {c : Char} {digits : Text}
    (all : ∀ d ∈ c :: digits, d.isDigit = true) :
    stoll (c :: digits) =
      if (Nat.ofDigitChars 10 (c :: digits) 0 : Int) < 2 ^ 63 then
        some (Nat.ofDigitChars 10 (c :: digits) 0 : Int)
      else none := by
  have range := Char.isDigit_iff_toNat.mp (all c List.mem_cons_self)
  have low : 48 ≤ c.toNat := range.1
  have notSpace : isspace c = false := by
    have space : c ≠ ' ' := by
      rintro rfl
      exact absurd low (by decide)
    have control : ¬c.toNat ≤ 13 := by omega
    simp [isspace, space, control]
  have unsigned : sign (c :: digits) = (false, c :: digits) := by
    have minus : c ≠ '-' := by
      rintro rfl
      exact absurd low (by decide)
    have plus : c ≠ '+' := by
      rintro rfl
      exact absurd low (by decide)
    rw [sign]
    · exact fun rest same => minus (List.cons.inj same).1
    · exact fun rest same => plus (List.cons.inj same).1
  have taken : (c :: digits).takeWhile Char.isDigit = c :: digits :=
    List.takeWhile_eq_self_iff.mpr all
  have positive : (-2 ^ 63 : Int) ≤ Nat.ofDigitChars 10 (c :: digits) 0 := by omega
  simp only [stoll, List.dropWhile_cons, notSpace, Bool.false_eq_true, if_false, unsigned, taken,
    reduceCtorEq, positive, true_and]

/-- A number below `2 ^ 63` reads back from its decimal digits, and a greater one makes
`stoll` throw. -/
theorem stoll_decimal (num : UInt64) :
    stoll (decimal num) = if num.toNat < 2 ^ 63 then some (num.toNat : Int) else none := by
  have all : ∀ d ∈ decimal num, d.isDigit = true := fun d member =>
    Nat.isDigit_of_mem_toDigits (by decide) (by decide) member
  have value : Nat.ofDigitChars 10 (decimal num) 0 = num.toNat :=
    Nat.ofDigitChars_toDigits (by decide) (by decide)
  obtain ⟨c, digits, shape⟩ : ∃ c digits, decimal num = c :: digits :=
    List.exists_cons_of_ne_nil Nat.toDigits_ne_nil
  rw [shape] at all value ⊢
  rw [stoll_digits all, value]
  norm_cast

/-! ## Rows as lines -/

/-- The fields of a row with tabs between them. -/
def line (toString : Double → Text) (stock : Stock Double) : Text :=
  ['\t'].intercalate (stock.contents toString)

/-- A file with one line for each row. -/
def file (toString : Double → Text) (rows : List (Stock Double)) : Text :=
  rows.flatMap fun stock => line toString stock ++ ['\n']

/-- No field of the row has a tab or a line break in it, and its two numbers with a point
read back. -/
structure Printable (toString : Double → Text) (stod : Text → Option Double)
    (stock : Stock Double) : Prop where
  clean : ∀ content ∈ stock.contents toString, '\t' ∉ content ∧ '\n' ∉ content
  weight : stod (toString stock.weight) = some stock.weight
  price : stod (toString stock.price) = some stock.price

/-- The row can be read from its line: the number is in the range of `long long`, and the last
field is not empty. -/
def Readable (stock : Stock Double) : Prop :=
  stock.num.toNat < 2 ^ 63 ∧ stock.description ≠ []

variable {toString : Double → Text} {stod : Text → Option Double} {stock : Stock Double}

theorem ofInt_toNat (num : UInt64) : UInt64.ofInt (num.toNat : Int) = num := by
  have bound := num.toNat_lt
  have whole : ((num.toNat : Int) % 2 ^ 64).toNat = num.toNat := by omega
  rw [UInt64.ofInt, whole, UInt64.ofNat_toNat]

theorem ofStrings_contents (printable : Printable toString stod stock) :
    Stock.ofStrings stod stock.item (decimal stock.num) (toString stock.weight)
        (toString stock.price) stock.sdate stock.description =
      if stock.num.toNat < 2 ^ 63 then some stock else none := by
  rw [Stock.ofStrings, stoll_decimal, printable.weight, printable.price]
  by_cases small : stock.num.toNat < 2 ^ 63
  · rw [if_pos small, if_pos small]
    simp [ofInt_toNat]
  · rw [if_neg small, if_neg small]
    rfl

/-- The fields of a row but the last. -/
def frontFields (toString : Double → Text) (stock : Stock Double) : List Text :=
  [stock.item, decimal stock.num, toString stock.weight, toString stock.price, stock.sdate]

theorem contents_eq (stock : Stock Double) :
    stock.contents toString = frontFields toString stock ++ [stock.description] :=
  rfl

theorem line_eq (stock : Stock Double) :
    line toString stock =
      (frontFields toString stock).flatMap (· ++ ['\t']) ++ stock.description := by
  simp [line, Stock.contents, Stock.columns, frontFields, List.intercalate]

/-- The pieces of a line are the fields of its row, without an empty last field. -/
theorem pieces_line (printable : Printable toString stod stock) :
    pieces '\t' (line toString stock) =
      frontFields toString stock ++
        if stock.description = [] then [] else [stock.description] := by
  have front : ∀ field ∈ frontFields toString stock, '\t' ∉ field := by
    intro field member
    refine (printable.clean field ?_).1
    rw [contents_eq]
    exact List.mem_append_left _ member
  have last : '\t' ∉ stock.description := by
    refine (printable.clean stock.description ?_).1
    rw [contents_eq]
    exact List.mem_append_right _ (List.mem_singleton_self _)
  rw [line_eq, pieces_flatMap front]
  by_cases empty : stock.description = []
  · rw [if_pos empty, empty, pieces]
  · rw [if_neg empty, pieces_clean last empty]

/-- No line break stands in a line. -/
theorem line_clean (printable : Printable toString stod stock) :
    '\n' ∉ line toString stock := by
  intro member
  rw [line_eq, List.mem_append, List.mem_flatMap] at member
  rcases member with ⟨field, listed, inside⟩ | inside
  · rcases List.mem_append.mp inside with inField | atEnd
    · refine (printable.clean field ?_).2 inField
      rw [contents_eq]
      exact List.mem_append_left _ listed
    · exact absurd (List.mem_singleton.mp atEnd) (by decide)
  · refine (printable.clean stock.description ?_).2 inside
    rw [contents_eq]
    exact List.mem_append_right _ (List.mem_singleton_self _)

/-- The pieces of a file are the lines of its rows. -/
theorem pieces_file {rows : List (Stock Double)}
    (printable : ∀ stock ∈ rows, Printable toString stod stock) :
    pieces '\n' (file toString rows) = rows.map (line toString) := by
  have clean : ∀ text ∈ rows.map (line toString), '\n' ∉ text := by
    intro text member
    obtain ⟨stock, listed, rfl⟩ := List.mem_map.mp member
    exact line_clean (printable stock listed)
  have lines := pieces_flatMap clean []
  rw [List.append_nil, List.flatMap_map] at lines
  exact lines.trans (List.append_nil _)

/-! ## Reading the lines -/

/-- What a line adds: its row, nothing, or an exception. -/
theorem readLine_line (printable : Printable toString stod stock)
    (stockVector : List (Stock Double)) :
    readLine stod stockVector (line toString stock) =
      if stock.description = [] then .again stockVector
      else if stock.num.toNat < 2 ^ 63 then .again (stockVector ++ [stock])
      else .leave none := by
  rw [readLine, tokenizeLine_eq, pieces_line printable]
  by_cases empty : stock.description = []
  · rw [if_pos empty, if_pos empty]
    rfl
  · rw [if_neg empty, if_neg empty]
    simp only [frontFields, List.cons_append, List.nil_append, ofStrings_contents printable]
    by_cases small : stock.num.toNat < 2 ^ 63
    · rw [if_pos small, if_pos small]
    · rw [if_neg small, if_neg small]

/-- Reading the lines of rows, from the rows read so far. -/
def readRows (toString : Double → Text) (stod : Text → Option Double)
    (stockVector rows : List (Stock Double)) : Option (List (Stock Double)) :=
  overPieces (readLine stod) some stockVector (rows.map (line toString))

theorem readRows_cons (printable : Printable toString stod stock)
    (stockVector rows : List (Stock Double)) :
    readRows toString stod stockVector (stock :: rows) =
      if stock.description = [] then readRows toString stod stockVector rows
      else if stock.num.toNat < 2 ^ 63 then
        readRows toString stod (stockVector ++ [stock]) rows
      else none := by
  rw [readRows, List.map_cons, overPieces, readLine_line printable]
  by_cases empty : stock.description = []
  · rw [if_pos empty, if_pos empty]
    rfl
  · rw [if_neg empty, if_neg empty]
    by_cases small : stock.num.toNat < 2 ^ 63
    · rw [if_pos small, if_pos small]
      rfl
    · rw [if_neg small, if_neg small]

/-- A line adds at most one row. -/
theorem length_readRows_le {rows stockVector result : List (Stock Double)}
    (printable : ∀ stock ∈ rows, Printable toString stod stock)
    (returned : readRows toString stod stockVector rows = some result) :
    result.length ≤ stockVector.length + rows.length := by
  induction rows generalizing stockVector with
  | nil =>
      cases returned
      exact Nat.le_refl _
  | cons stock rows ih =>
      have others : ∀ other ∈ rows, Printable toString stod other :=
        fun other member => printable other (List.mem_cons_of_mem _ member)
      rw [readRows_cons (printable stock List.mem_cons_self)] at returned
      rw [List.length_cons]
      split at returned
      · have rest := ih others returned
        omega
      · split at returned
        · have rest := ih others returned
          rw [List.length_append, List.length_singleton] at rest
          omega
        · contradiction

/-- The rows come back exactly when each of them is readable. -/
theorem readRows_iff {rows : List (Stock Double)}
    (printable : ∀ stock ∈ rows, Printable toString stod stock)
    (stockVector : List (Stock Double)) :
    readRows toString stod stockVector rows = some (stockVector ++ rows) ↔
      ∀ stock ∈ rows, Readable stock := by
  induction rows generalizing stockVector with
  | nil => simp [readRows, overPieces]
  | cons stock rows ih =>
      have others : ∀ other ∈ rows, Printable toString stod other :=
        fun other member => printable other (List.mem_cons_of_mem _ member)
      rw [readRows_cons (printable stock List.mem_cons_self), List.forall_mem_cons]
      by_cases empty : stock.description = []
      · have unreadable : ¬Readable stock := fun readable => readable.2 empty
        rw [if_pos empty]
        simp only [unreadable, false_and, iff_false]
        intro returned
        have short := length_readRows_le others returned
        rw [List.length_append, List.length_cons] at short
        omega
      · rw [if_neg empty]
        by_cases small : stock.num.toNat < 2 ^ 63
        · have readable : Readable stock := ⟨small, empty⟩
          rw [if_pos small, List.append_cons stockVector stock rows,
            ih others (stockVector ++ [stock])]
          simp only [readable, true_and]
        · have unreadable : ¬Readable stock := fun readable => small readable.1
          rw [if_neg small]
          simp only [unreadable, false_and, reduceCtorEq]

/-- A file with one line for each row reads back to its rows, behind the rows that were there
before, if and only if every number is in the range of `long long` and no description is
empty: a line with an empty last field has one field too few and is left out, and a greater
number throws. -/
theorem readStockItems_file_iff {rows : List (Stock Double)} {fuel : Nat}
    (printable : ∀ stock ∈ rows, Printable toString stod stock)
    (enough : (file toString rows).length < fuel) (stockVector : List (Stock Double)) :
    readStockItems stod fuel (file toString rows) stockVector =
        some (some (stockVector ++ rows)) ↔
      ∀ stock ∈ rows, Readable stock := by
  rw [readStockItems_eq stod enough, pieces_file printable, Option.some.injEq]
  exact readRows_iff printable stockVector

/-- `std::stod`, on the texts of whole numbers. -/
def stodWhole (text : Text) : Option Nat :=
  some (Nat.ofDigitChars 10 (text.takeWhile Char.isDigit) 0)

theorem pen_printable (description : Text) (clean : '\t' ∉ description ∧ '\n' ∉ description) :
    Printable wholeNumber stodWhole (pen description) where
  clean := by
    intro content member
    rw [contents_eq, List.mem_append, List.mem_singleton] at member
    rcases member with front | rfl
    · have others : ∀ field ∈ frontFields wholeNumber (pen []), '\t' ∉ field ∧ '\n' ∉ field := by
        decide
      exact others content front
    · exact clean
  weight := (by decide : stodWhole (wholeNumber 3) = some 3)
  price := (by decide : stodWhole (wholeNumber 4) = some 4)

/-- A row with a description comes back, and one without does not. -/
theorem pens_read :
    readStockItems stodWhole 100 (file wholeNumber [pen "blue".toList]) [] =
        some (some [pen "blue".toList]) ∧
      readStockItems stodWhole 100 (file wholeNumber [pen []]) [] ≠ some (some [pen []]) := by
  constructor
  · refine (readStockItems_file_iff ?_ (by decide) []).mpr ?_
    · simpa using pen_printable "blue".toList (by decide)
    · intro stock member
      rw [List.mem_singleton.mp member]
      exact ⟨by decide, by decide⟩
  · refine mt (readStockItems_file_iff ?_ (by decide) []).mp ?_
    · simpa using pen_printable [] (by decide)
    · intro readable
      exact (readable (pen []) (List.mem_singleton_self _)).2 rfl

/-! ## The import -/

/-- `test_replaceall`: the texts that are executed, with an answer to each.  The file may not
open.  The outer option is none when the bound on the passes is reached, the inner one when
the call throws. -/
def testReplaceall (toString : Double → Text) (stod : Text → Option Double) (fuel : Nat)
    (shown : Option Nat) (answers : Nat → Executed) (input : Option Text)
    (stockVec : List (Stock Double)) : Option (Option (List Text)) :=
  match input with
  | none => some (some [])
  | some text =>
      match readStockItems stod fuel text stockVec with
      | none => none
      | some none => some none
      | some (some rows) =>
          let deleted := (deleteWhere (stockTable toString) [] (answers 0)).2
          let saved :=
            (replaceAll (stockTable toString) shown (fun index => answers (1 + index)) rows).2
          let each := replaceEach (stockTable toString)
            (fun index => answers (1 + saved.length + index)) rows
          some (some (deleted ++ saved ++ each))

/-- The texts of an import: the `DELETE`, the statements of `replaceAll`, and one for each
row. -/
def importTexts (toString : Double → Text) (shown : Option Nat) (answers : Nat → Executed)
    (rows : List (Stock Double)) : List Text :=
  let saved := (replaceAll (stockTable toString) shown (fun index => answers (1 + index)) rows).2
  [emptyText] ++ saved ++
    replaceEach (stockTable toString) (fun index => answers (1 + saved.length + index)) rows

theorem testReplaceall_file {rows : List (Stock Double)} {fuel : Nat}
    (printable : ∀ stock ∈ rows, Printable toString stod stock)
    (readable : ∀ stock ∈ rows, Readable stock)
    (enough : (file toString rows).length < fuel) (shown : Option Nat)
    (answers : Nat → Executed) :
    testReplaceall toString stod fuel shown answers (some (file toString rows)) [] =
      some (some (importTexts toString shown answers rows)) := by
  have read : readStockItems stod fuel (file toString rows) [] = some (some rows) := by
    rw [readStockItems_eq stod enough, pieces_file printable]
    exact congrArg some ((readRows_iff printable []).mpr readable)
  rw [testReplaceall]
  simp only [read, deleteWhere_sent, importTexts]

section Server

variable {Key : Type} [DecidableEq Key] {escape : Char → Option Char} {key : List Text → Key}
  {Store : Type} (server : Server escape toString key Store)

/-- The statements at the end are enough to save all rows. -/
theorem after_importTexts (plain : ∀ value, Plain (toString value)) (store : Store)
    {rows : List (Stock Double)} (verbatim : ∀ stock ∈ rows, stock.Verbatim escape)
    (shown : Option Nat) {answers : Nat → Executed}
    (deleted : ∃ count, answers 0 = .rows count)
    (good : Succeeds
      (fun index => answers ((importTexts toString shown answers rows).length - rows.length +
        index)) rows.length) :
    server.table (server.after store answers (importTexts toString shown answers rows)) =
      saveAll key (fun _ => none) (rows.map (Stock.contents toString)) := by
  obtain ⟨count, deleted⟩ := deleted
  let later := fun index => answers (1 + index)
  let saved := (replaceAll (stockTable toString) shown later rows).2
  let last := fun index => answers (1 + saved.length + index)
  have lengths : (replaceEach (stockTable toString) last rows).length = rows.length := by
    rw [replaceEach_eq, List.length_map, List.length_map]
  have succeeds : Succeeds last rows.length := by
    intro index inside
    obtain ⟨rowCount, answered⟩ := good index inside
    refine ⟨rowCount, ?_⟩
    rw [← answered]
    simp only [importTexts, List.length_append, List.length_singleton, lengths, last, saved,
      later, Nat.add_sub_cancel]
  let emptied := server.after store answers [emptyText]
  have empty : server.table emptied = fun _ => none := by
    simp only [emptied, Server.after, deleted, server.table_delete]
  obtain ⟨first, lost, split, becomes, _⟩ :=
    replaceAll_saves server plain emptied shown verbatim later
  rw [importTexts, Server.after_append, Server.after_append]
  simp only [List.length_append, List.length_singleton]
  rw [after_replaceEach server plain _ verbatim succeeds, becomes, empty]
  apply saveAll_hidden
  intro row member
  refine ⟨row, ?_, rfl⟩
  rw [← split, List.map_append]
  exact List.mem_append_left _ member

/-- After the import of a readable file the table holds the rows of the file and no others, the
last row of each key.  It does not matter what the table held before and whether
`replaceAll` has saved all rows, some or none: it is enough that the `DELETE` and the
statements at the end, one for each row, have succeeded. -/
theorem testReplaceall_table (plain : ∀ value, Plain (toString value)) (store : Store)
    {rows : List (Stock Double)} {fuel : Nat}
    (printable : ∀ stock ∈ rows, Printable toString stod stock)
    (readable : ∀ stock ∈ rows, Readable stock)
    (verbatim : ∀ stock ∈ rows, stock.Verbatim escape)
    (enough : (file toString rows).length < fuel) (shown : Option Nat)
    (answers : Nat → Executed) :
    ∃ texts, testReplaceall toString stod fuel shown answers (some (file toString rows)) [] =
        some (some texts) ∧
      ((∃ count, answers 0 = .rows count) →
        Succeeds (fun index => answers (texts.length - rows.length + index)) rows.length →
        server.table (server.after store answers texts) =
          saveAll key (fun _ => none) (rows.map (Stock.contents toString))) :=
  ⟨_, testReplaceall_file printable readable enough shown answers,
    fun deleted good => after_importTexts server plain store verbatim shown deleted good⟩

end Server

theorem pens_printable : ∀ stock ∈ pens, Printable wholeNumber stodWhole stock := by
  intro stock member
  rcases eq_pen_of_mem member with rfl | rfl <;> exact pen_printable _ (by decide)

theorem pens_readable : ∀ stock ∈ pens, Readable stock := by
  intro stock member
  rcases eq_pen_of_mem member with rfl | rfl <;> exact ⟨by decide, by decide⟩

theorem pens_enough : (file wholeNumber pens).length < 100 := by
  decide

/-- The last row of a file replaces what the table held, although `replaceAll` has no packet
limit and saves nothing. -/
theorem pens_imported :
    ∃ texts, testReplaceall wholeNumber stodWhole 100 none (fun _ => .rows 1)
        (some (file wholeNumber pens)) [] = some (some texts) ∧
      pensServer.table (pensServer.after (fun _ => some []) (fun _ => .rows 1) texts) =
        saveAll List.head? (fun _ => none) (pens.map (Stock.contents wholeNumber)) := by
  obtain ⟨texts, sent, becomes⟩ := testReplaceall_table pensServer plain_wholeNumber
    (fun _ => some []) pens_printable pens_readable pens_verbatim pens_enough none
    (fun _ => .rows 1)
  exact ⟨texts, sent, becomes ⟨1, rfl⟩ fun _ _ => ⟨1, rfl⟩⟩

end Cncpp.Mysql

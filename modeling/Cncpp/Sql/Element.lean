import Cncpp.Sql.Literal

/-!
# Reading the elements of a list

An element between single quotes is a literal, which stands for its content.  An element
between backticks is a name: it ends at the first backtick that is not doubled, and stands
for what the name refers to.  Elements are separated by commas.
-/

namespace Cncpp.Sql

/-- The quote of names. -/
def backtick : Char := '\x60'

/-- Read a name behind its first backtick; the result is the name and what follows its last
backtick. -/
def readName : List Char → Option (List Char × List Char)
  | [] => none
  | [c] => if c = backtick then some ([], []) else none
  | c :: d :: rest =>
      if c = backtick then
        if d = backtick then prepend [backtick] (readName rest) else some ([], d :: rest)
      else prepend [c] (readName (d :: rest))

/-- An element of a list. -/
inductive Element where
  | literal (content : List Char)
  | identifier (name : List Char)
  deriving DecidableEq

/-- Read an element. -/
def readElement (escape : Char → Option Char) : List Char → Option (Element × List Char)
  | [] => none
  | c :: rest =>
      if c = backtick then (readName rest).map fun read => (.identifier read.1, read.2)
      else (readLiteral escape (c :: rest)).map fun read => (.literal read.1, read.2)

/-- Read elements separated by commas. -/
def readElements (escape : Char → Option Char) (text : List Char) :
    Option (List Element × List Char) :=
  readSeparated (readElement escape) text.length text

/-! ## Writing elements -/

/-- A name between backticks. -/
def tick (name : List Char) : List Char :=
  backtick :: name ++ [backtick]

namespace Element

/-- The element as it is written between its quotes. -/
def text : Element → List Char
  | literal content => quote content
  | identifier name => tick name

/-- Between its quotes the element stands for itself. -/
def Verbatim (escape : Char → Option Char) : Element → Prop
  | literal content => Sql.Verbatim escape content
  | identifier name => backtick ∉ name

theorem text_ne_nil (element : Element) : element.text ≠ [] := by
  cases element with
  | literal content => exact List.cons_ne_nil _ _
  | identifier name => exact List.cons_ne_nil _ _

end Element

variable {escape : Char → Option Char}

theorem readName_backtick {rest : List Char} (ends : NotAhead backtick rest) :
    readName (backtick :: rest) = some ([], rest) := by
  cases rest with
  | nil => rfl
  | cons d rest =>
      have other : d ≠ backtick := fun same => ends (congrArg some same)
      simp [readName, other]

theorem readName_append {name rest : List Char} (plain : backtick ∉ name)
    (ends : NotAhead backtick rest) :
    readName (name ++ backtick :: rest) = some (name, rest) := by
  induction name with
  | nil => exact readName_backtick ends
  | cons c name ih =>
      obtain ⟨other, later⟩ := not_or.mp (List.mem_cons.not.mp plain)
      have read := ih later
      have notBacktick : c ≠ backtick := Ne.symm other
      cases name with
      | nil =>
          rw [List.nil_append] at read
          simp [readName, notBacktick, read, prepend]
      | cons d name =>
          rw [List.cons_append] at read
          simp [readName, notBacktick, read, prepend]

/-- A verbatim element is read back. -/
theorem readElement_text {element : Element} {rest : List Char}
    (verbatim : element.Verbatim escape) (noQuote : NotAhead '\'' rest)
    (noBacktick : NotAhead backtick rest) :
    readElement escape (element.text ++ rest) = some (element, rest) := by
  cases element with
  | literal content =>
      have read : readLiteral escape (quote content ++ rest) = some (content, rest) :=
        readLiteral_quote verbatim noQuote
      have other : '\'' ≠ backtick := by decide
      rw [quote, List.cons_append, List.cons_append] at read
      rw [Element.text, quote, List.cons_append, List.cons_append, readElement, if_neg other,
        read]
      rfl
  | identifier name =>
      have read : readName (name ++ backtick :: rest) = some (name, rest) :=
        readName_append verbatim noBacktick
      rw [Element.text, tick, List.cons_append, List.cons_append, List.append_assoc,
        List.singleton_append, readElement, if_pos rfl, read]
      rfl

/-- Verbatim elements are read back from their sequence. -/
theorem readElements_separated {elements : List Element} {rest : List Char}
    (nonempty : elements ≠ []) (verbatim : ∀ element ∈ elements, element.Verbatim escape)
    (noQuote : NotAhead '\'' rest) (noBacktick : NotAhead backtick rest)
    (noComma : NotAhead ',' rest) :
    readElements escape (separated Element.text elements ++ rest) = some (elements, rest) := by
  apply readSeparated_separated nonempty
  · rw [List.length_append]
    exact Nat.le_trans (length_le_separated Element.text_ne_nil elements) (Nat.le_add_right _ _)
  · exact noComma
  · rintro element member after (rfl | comma)
    · exact readElement_text (verbatim element member) noQuote noBacktick
    · have ahead (c : Char) (other : c ≠ ',') : NotAhead c after := by
        rw [NotAhead, comma]
        exact fun same => other (Option.some.inj same).symm
      exact readElement_text (verbatim element member) (ahead '\'' (by decide))
        (ahead backtick (by decide))

/-- Behind a backtick there is no literal. -/
theorem readElement_of_backtick {text rest : List Char} {element : Element}
    (read : readElement escape (backtick :: text) = some (element, rest)) :
    ∃ name, element = .identifier name := by
  rw [readElement, if_pos rfl] at read
  obtain ⟨name, _, same⟩ := Option.map_eq_some_iff.mp read
  exact ⟨name.1, (Prod.mk.inj same).1.symm⟩

/-- Elements that begin with a backtick begin with an identifier. -/
theorem readElements_of_backtick {text rest : List Char} {elements : List Element}
    (read : readElements escape (backtick :: text) = some (elements, rest)) :
    ∃ name later, elements = .identifier name :: later := by
  obtain ⟨_, element, behind, _, first, shape⟩ := readSeparated_cases read
  obtain ⟨name, rfl⟩ := readElement_of_backtick first
  rcases shape with ⟨rfl, _⟩ | ⟨_, later, _, _, rfl⟩
  · exact ⟨name, [], rfl⟩
  · exact ⟨name, later, rfl⟩

end Cncpp.Sql

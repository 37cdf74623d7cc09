import Mathlib.Data.List.Basic

/-!
# Reading quoted literals

A literal stands between single quotes.  It ends at the first quote that is neither doubled
nor escaped; a doubled quote stands for one quote, and a backslash escapes the character
behind it.  Literals are separated by commas, and a tuple of literals stands in
parentheses.

A text that is written between quotes as it is can be read back when it has neither quotes
nor escapes.  The converse holds because reading never gives more characters than it takes:
a content that comes back in full leaves no character for a doubled quote or an escape.
-/

namespace Cncpp.Sql

universe u

/-- What an escape sequence stands for.  Where `escape` gives no character, the sequence
stands for itself. -/
def escaped (escape : Char → Option Char) (c : Char) : List Char :=
  match escape c with
  | some denoted => [denoted]
  | none => ['\\', c]

/-- Put characters in front of what has been read. -/
def prepend (front : List Char) : Option (List Char × List Char) → Option (List Char × List Char)
  | none => none
  | some (content, rest) => some (front ++ content, rest)

/-- Read a literal behind its first quote; the result is its content and what follows its
last quote. -/
def readBody (escape : Char → Option Char) : List Char → Option (List Char × List Char)
  | [] => none
  | [c] => if c = '\'' then some ([], []) else none
  | c :: d :: rest =>
      if c = '\'' then
        if d = '\'' then prepend ['\''] (readBody escape rest) else some ([], d :: rest)
      else if c = '\\' then prepend (escaped escape d) (readBody escape rest)
      else prepend [c] (readBody escape (d :: rest))

/-- Read a literal. -/
def readLiteral (escape : Char → Option Char) : List Char → Option (List Char × List Char)
  | [] => none
  | c :: rest => if c = '\'' then readBody escape rest else none

section Separated

variable {α : Type u}

/-- Read one item or more, separated by commas. -/
def readSeparated (read : List Char → Option (α × List Char)) :
    Nat → List Char → Option (List α × List Char)
  | 0, _ => none
  | fuel + 1, text =>
      match read text with
      | none => none
      | some (item, ',' :: rest) =>
          match readSeparated read fuel rest with
          | none => none
          | some (items, after) => some (item :: items, after)
      | some (item, rest) => some ([item], rest)

end Separated

/-- Read literals separated by commas. -/
def readValues (escape : Char → Option Char) (text : List Char) :
    Option (List (List Char) × List Char) :=
  readSeparated (readLiteral escape) text.length text

/-- Read literals in parentheses. -/
def readTuple (escape : Char → Option Char) : List Char → Option (List (List Char) × List Char)
  | '(' :: text =>
      match readValues escape text with
      | some (contents, ')' :: rest) => some (contents, rest)
      | _ => none
  | _ => none

/-- Read tuples separated by commas. -/
def readTuples (escape : Char → Option Char) (text : List Char) :
    Option (List (List (List Char)) × List Char) :=
  readSeparated (readTuple escape) text.length text

/-- Read a statement that begins with `head` and goes on with tuples to its end. -/
def readStatement (escape : Char → Option Char) (head text : List Char) :
    Option (List (List (List Char))) :=
  if head.isPrefixOf text then
    match readTuples escape (text.drop head.length) with
    | some (rows, []) => some rows
    | _ => none
  else none

/-! ## Contents without quotes and escapes -/

/-- Between quotes the content stands for itself. -/
def Verbatim (escape : Char → Option Char) : List Char → Prop
  | [] => True
  | [c] => c ≠ '\'' ∧ c ≠ '\\'
  | c :: d :: rest =>
      if c = '\\' then escape d = none ∧ Verbatim escape rest
      else c ≠ '\'' ∧ Verbatim escape (d :: rest)

/-- No quote and no backslash. -/
def Plain (content : List Char) : Prop :=
  ∀ c ∈ content, c ≠ '\'' ∧ c ≠ '\\'

instance (content : List Char) : Decidable (Plain content) :=
  List.decidableBAll (fun c => c ≠ '\'' ∧ c ≠ '\\') content

variable {escape : Char → Option Char}

theorem Plain.verbatim {content : List Char} (plain : Plain content) :
    Verbatim escape content := by
  fun_induction Verbatim escape content with
  | case1 => trivial
  | case2 c => exact plain c List.mem_cons_self
  | case3 d rest ih => exact absurd rfl (plain '\\' List.mem_cons_self).2
  | case4 c d rest notBackslash ih =>
      exact ⟨(plain c List.mem_cons_self).1, ih fun e member =>
        plain e (List.mem_cons_of_mem c member)⟩

/-- When every character can be escaped, a content is verbatim exactly if it has no quote
and no backslash. -/
theorem verbatim_some_iff {content : List Char} : Verbatim some content ↔ Plain content := by
  constructor
  · intro verbatim
    fun_induction Verbatim some content with
    | case1 => exact fun c member => absurd member List.not_mem_nil
    | case2 c =>
        intro e member
        rw [List.mem_singleton.mp member]
        exact verbatim
    | case3 d rest ih => exact absurd verbatim.1 (Option.some_ne_none d)
    | case4 c d rest notBackslash ih =>
        intro e member
        rcases List.mem_cons.mp member with rfl | later
        · exact ⟨verbatim.1, notBackslash⟩
        · exact ih verbatim.2 e later
  · exact Plain.verbatim

/-! ## Verbatim contents are read back -/

/-- The text does not begin with the character. -/
def NotAhead (c : Char) (text : List Char) : Prop :=
  text.head? ≠ some c

theorem notAhead_nil (c : Char) : NotAhead c [] :=
  Option.some_ne_none c |>.symm

theorem notAhead_cons {c d : Char} (other : d ≠ c) (text : List Char) : NotAhead c (d :: text) :=
  fun same => other (Option.some.inj same)

theorem readBody_quote {rest : List Char} (ends : NotAhead '\'' rest) :
    readBody escape ('\'' :: rest) = some ([], rest) := by
  cases rest with
  | nil => rfl
  | cons d rest =>
      have other : d ≠ '\'' := fun same => ends (congrArg some same)
      simp [readBody, other]

theorem readBody_verbatim {content rest : List Char} (verbatim : Verbatim escape content)
    (ends : NotAhead '\'' rest) :
    readBody escape (content ++ '\'' :: rest) = some (content, rest) := by
  fun_induction Verbatim escape content with
  | case1 => exact readBody_quote ends
  | case2 c =>
      simp [readBody, verbatim.1, verbatim.2, readBody_quote ends, prepend]
  | case3 d content ih =>
      simp [readBody, ih verbatim.2, prepend, escaped, verbatim.1]
  | case4 c d content notBackslash ih =>
      have later := ih verbatim.2
      rw [List.cons_append] at later
      simp [readBody, verbatim.1, notBackslash, later, prepend]

/-- A literal between quotes. -/
def quote (content : List Char) : List Char :=
  '\'' :: content ++ ['\'']

theorem readLiteral_quote {content rest : List Char} (verbatim : Verbatim escape content)
    (ends : NotAhead '\'' rest) :
    readLiteral escape (quote content ++ rest) = some (content, rest) := by
  rw [quote, List.cons_append, List.cons_append, List.append_assoc, List.singleton_append,
    readLiteral, if_pos rfl, readBody_verbatim verbatim ends]

/-! ## Separated items -/

section Separated

variable {α : Type u} {read : List Char → Option (α × List Char)} {write : α → List Char}

/-- Items separated by commas. -/
def separated (write : α → List Char) (items : List α) : List Char :=
  [','].intercalate (items.map write)

@[simp]
theorem separated_singleton (item : α) : separated write [item] = write item := by
  simp [separated]

theorem separated_cons_cons (item next : α) (items : List α) :
    separated write (item :: next :: items) =
      write item ++ ',' :: separated write (next :: items) := by
  rw [separated, List.map_cons, List.map_cons, List.intercalate_cons_cons, separated,
    List.map_cons, List.append_assoc, List.singleton_append]

/-- One more item stands behind one more comma. -/
theorem separated_concat {items : List α} (nonempty : items ≠ []) (item : α) :
    separated write (items ++ [item]) = separated write items ++ ',' :: write item := by
  induction items with
  | nil => exact absurd rfl nonempty
  | cons first rest ih =>
      cases rest with
      | nil => rw [List.singleton_append, separated_cons_cons, separated_singleton,
          separated_singleton]
      | cons second rest =>
          have later := ih (List.cons_ne_nil second rest)
          rw [List.cons_append] at later
          rw [List.cons_append, List.cons_append, separated_cons_cons, later,
            separated_cons_cons, List.append_assoc, List.cons_append]

theorem length_le_separated (nonempty : ∀ item, write item ≠ []) (items : List α) :
    items.length ≤ (separated write items).length := by
  induction items with
  | nil => exact Nat.zero_le _
  | cons item items ih =>
      cases items with
      | nil =>
          rw [separated_singleton]
          exact List.length_pos_iff.mpr (nonempty item)
      | cons next items =>
          rw [List.length_cons, separated_cons_cons, List.length_append, List.length_cons]
          exact Nat.le_trans (Nat.add_le_add_right ih 1) (Nat.le_add_left _ _)

/-- Items that are read back in front of a comma and of `rest` are read back in a
sequence. -/
theorem readSeparated_separated {items : List α} {rest : List Char} {fuel : Nat}
    (nonempty : items ≠ []) (enough : items.length ≤ fuel) (ends : NotAhead ',' rest)
    (reads : ∀ item ∈ items, ∀ after, after = rest ∨ after.head? = some ',' →
      read (write item ++ after) = some (item, after)) :
    readSeparated read fuel (separated write items ++ rest) = some (items, rest) := by
  induction items generalizing fuel with
  | nil => exact absurd rfl nonempty
  | cons item items ih =>
      cases fuel with
      | zero => simp at enough
      | succ fuel =>
          cases items with
          | nil =>
              have first := reads item List.mem_cons_self rest (Or.inl rfl)
              rw [separated_singleton, readSeparated, first]
              cases rest with
              | nil => rfl
              | cons c rest =>
                  have other : c ≠ ',' := fun same => ends (congrArg some same)
                  simp [other]
          | cons next items =>
              have first := reads item List.mem_cons_self
                (',' :: (separated write (next :: items) ++ rest)) (Or.inr rfl)
              have later := ih (List.cons_ne_nil next items) (Nat.le_of_succ_le_succ enough)
                fun other member => reads other (List.mem_cons_of_mem item member)
              rw [separated_cons_cons, List.append_assoc, List.cons_append, readSeparated, first]
              simp only [later]

end Separated

/-! ## Reading gives at most as many characters as it takes -/

section Compact

variable {α : Type u}

/-- An item is not longer than the text it has been read from, and it is good if it is as
long. -/
def Compact (read : List Char → Option (α × List Char)) (write : α → List Char)
    (Good : α → Prop) : Prop :=
  ∀ text item rest, read text = some (item, rest) →
    (write item).length + rest.length ≤ text.length ∧
      ((write item).length + rest.length = text.length → Good item)

variable {read : List Char → Option (α × List Char)} {write : α → List Char} {Good : α → Prop}

/-- An item that is read back is good. -/
theorem Compact.good (compact : Compact read write Good) {item : α} {rest : List Char}
    (reads : read (write item ++ rest) = some (item, rest)) : Good item :=
  (compact _ item rest reads).2 (List.length_append).symm

/-- How a sequence has been read. -/
theorem readSeparated_cases {fuel : Nat} {text rest : List Char} {items : List α}
    (result : readSeparated read fuel text = some (items, rest)) :
    ∃ before item behind, fuel = before + 1 ∧ read text = some (item, behind) ∧
      ((items = [item] ∧ rest = behind) ∨
        ∃ more later, behind = ',' :: more ∧
          readSeparated read before more = some (later, rest) ∧ items = item :: later) := by
  cases fuel with
  | zero => exact absurd result (by simp [readSeparated])
  | succ before =>
      rw [readSeparated] at result
      split at result
      · exact absurd result (by simp)
      · rename_i item more first
        split at result
        · exact absurd result (by simp)
        · rename_i later after second
          obtain ⟨rfl, rfl⟩ := Prod.mk.inj (Option.some.inj result)
          exact ⟨before, item, _, rfl, first, Or.inr ⟨more, later, rfl, second, rfl⟩⟩
      · rename_i item behind _ first
        obtain ⟨rfl, rfl⟩ := Prod.mk.inj (Option.some.inj result)
        exact ⟨before, item, behind, rfl, first, Or.inl ⟨rfl, rfl⟩⟩

theorem readSeparated_ne_nil {fuel : Nat} {text rest : List Char} {items : List α}
    (result : readSeparated read fuel text = some (items, rest)) : items ≠ [] := by
  obtain ⟨_, item, _, _, _, ⟨rfl, _⟩ | ⟨_, later, _, _, rfl⟩⟩ := readSeparated_cases result
  · exact List.cons_ne_nil item []
  · exact List.cons_ne_nil item later

/-- A sequence of compact items is compact. -/
theorem Compact.readSeparated (compact : Compact read write Good) (fuel : Nat) :
    Compact (readSeparated read fuel) (separated write)
      (fun items => ∀ item ∈ items, Good item) := by
  induction fuel with
  | zero => exact fun _ _ _ result => absurd result (by simp [Sql.readSeparated])
  | succ fuel ih =>
      intro text items rest result
      obtain ⟨before, item, behind, same, first, shape⟩ := readSeparated_cases result
      obtain ⟨bound, tight⟩ := compact text item behind first
      rcases shape with ⟨rfl, rfl⟩ | ⟨more, later, rfl, second, rfl⟩
      · rw [separated_singleton]
        exact ⟨bound, fun equal => List.forall_mem_singleton.mpr (tight equal)⟩
      · rw [← Nat.succ.inj same] at second
        obtain ⟨laterBound, laterTight⟩ := ih more later rest second
        obtain ⟨next, items, rfl⟩ := List.exists_cons_of_ne_nil (readSeparated_ne_nil second)
        rw [separated_cons_cons, List.length_append, List.length_cons]
        rw [List.length_cons] at bound tight
        constructor
        · omega
        · intro equal
          exact List.forall_mem_cons.mpr ⟨tight (by omega), laterTight (by omega)⟩

end Compact

theorem prepend_eq_some {front content rest : List Char}
    {read : Option (List Char × List Char)} (result : prepend front read = some (content, rest)) :
    ∃ behind, read = some (behind, rest) ∧ content = front ++ behind := by
  cases read with
  | none => exact absurd result (by simp [prepend])
  | some pair =>
      obtain ⟨rfl, rfl⟩ := Prod.mk.inj (Option.some.inj result)
      exact ⟨pair.1, rfl, rfl⟩

theorem Verbatim.cons {c : Char} {content : List Char} (notQuote : c ≠ '\'')
    (notBackslash : c ≠ '\\') (verbatim : Verbatim escape content) :
    Verbatim escape (c :: content) := by
  cases content with
  | nil => exact ⟨notQuote, notBackslash⟩
  | cons d content =>
      rw [Verbatim, if_neg notBackslash]
      exact ⟨notQuote, verbatim⟩

/-- A content that has taken no more than its own characters and a quote is verbatim. -/
theorem readBody_compact {text content rest : List Char}
    (result : readBody escape text = some (content, rest)) :
    content.length + 1 + rest.length ≤ text.length ∧
      (content.length + 1 + rest.length = text.length → Verbatim escape content) := by
  fun_induction readBody escape text generalizing content with
  | case1 => exact absurd result (by simp)
  | case2 =>
      obtain ⟨rfl, rfl⟩ := Prod.mk.inj (Option.some.inj result)
      exact ⟨Nat.le_refl _, fun _ => trivial⟩
  | case3 => exact absurd result (by simp)
  | case4 text ih =>
      obtain ⟨behind, read, rfl⟩ := prepend_eq_some result
      have bound := (ih read).1
      rw [List.singleton_append, List.length_cons, List.length_cons, List.length_cons]
      exact ⟨by omega, fun equal => absurd equal (by omega)⟩
  | case5 d text notQuote =>
      obtain ⟨rfl, rfl⟩ := Prod.mk.inj (Option.some.inj result)
      exact ⟨Nat.le_of_eq (Nat.add_comm _ _), fun _ => trivial⟩
  | case6 d text notQuote ih =>
      obtain ⟨behind, read, rfl⟩ := prepend_eq_some result
      obtain ⟨bound, tight⟩ := ih read
      rw [List.length_append, List.length_cons, List.length_cons]
      cases denoted : escape d with
      | none =>
          have pair : escaped escape d = ['\\', d] := by rw [escaped, denoted]
          rw [pair]
          refine ⟨by simp only [List.length_cons, List.length_nil]; omega, fun equal => ?_⟩
          exact ⟨denoted, tight (by simp only [List.length_cons, List.length_nil] at equal; omega)⟩
      | some e =>
          have single : escaped escape d = [e] := by rw [escaped, denoted]
          rw [single, List.length_singleton]
          exact ⟨by omega, fun equal => absurd equal (by omega)⟩
  | case7 c d text notQuote notBackslash ih =>
      obtain ⟨behind, read, rfl⟩ := prepend_eq_some result
      obtain ⟨bound, tight⟩ := ih read
      rw [List.singleton_append, List.length_cons, @List.length_cons _ c]
      exact ⟨by omega, fun equal => (tight (by omega)).cons notQuote notBackslash⟩

theorem compact_readLiteral : Compact (readLiteral escape) quote (Verbatim escape) := by
  intro text content rest result
  cases text with
  | nil => exact absurd result (by simp [readLiteral])
  | cons c text =>
      rw [readLiteral] at result
      split at result
      · obtain ⟨bound, tight⟩ := readBody_compact result
        have size : (quote content).length = content.length + 2 := by simp [quote]
        rw [size, List.length_cons]
        exact ⟨by omega, fun equal => tight (by omega)⟩
      · exact absurd result (by simp)

/-! ## Tuples -/

/-- Literals in parentheses. -/
def tuple (contents : List (List Char)) : List Char :=
  '(' :: separated quote contents ++ [')']

theorem quote_ne_nil (content : List Char) : quote content ≠ [] :=
  List.cons_ne_nil _ _

/-- Verbatim contents are read back from the literals. -/
theorem readValues_separated {contents : List (List Char)} {rest : List Char}
    (nonempty : contents ≠ []) (verbatim : ∀ content ∈ contents, Verbatim escape content)
    (noQuote : NotAhead '\'' rest) (noComma : NotAhead ',' rest) :
    readValues escape (separated quote contents ++ rest) = some (contents, rest) := by
  apply readSeparated_separated nonempty
  · rw [List.length_append]
    exact Nat.le_trans (length_le_separated quote_ne_nil contents) (Nat.le_add_right _ _)
  · exact noComma
  · rintro content member after (rfl | comma)
    · exact readLiteral_quote (verbatim content member) noQuote
    · refine readLiteral_quote (verbatim content member) ?_
      rw [NotAhead, comma]
      decide

theorem compact_readValues : Compact (readValues escape) (separated quote)
    (fun contents => ∀ content ∈ contents, Verbatim escape content) :=
  fun text => compact_readLiteral.readSeparated text.length text

theorem readTuple_tuple {contents : List (List Char)} (rest : List Char)
    (nonempty : contents ≠ []) (verbatim : ∀ content ∈ contents, Verbatim escape content) :
    readTuple escape (tuple contents ++ rest) = some (contents, rest) := by
  have values : readValues escape (separated quote contents ++ ')' :: rest) =
      some (contents, ')' :: rest) :=
    readValues_separated nonempty verbatim (notAhead_cons (by decide) rest)
      (notAhead_cons (by decide) rest)
  rw [tuple, List.cons_append, List.cons_append, List.append_assoc, List.singleton_append]
  simp [readTuple, values]

theorem compact_readTuple : Compact (readTuple escape) tuple
    (fun contents => ∀ content ∈ contents, Verbatim escape content) := by
  intro text contents rest result
  unfold readTuple at result
  split at result
  · rename_i body
    split at result
    · rename_i values after read
      obtain ⟨rfl, rfl⟩ := Prod.mk.inj (Option.some.inj result)
      obtain ⟨bound, tight⟩ := compact_readValues body values _ read
      rw [List.length_cons] at bound tight
      have size : (tuple values).length = (separated quote values).length + 2 := by
        simp [tuple]
      rw [size, List.length_cons]
      exact ⟨by omega, fun equal => tight (by omega)⟩
    · exact absurd result (by simp)
  · exact absurd result (by simp)

/-- Literals come back from their sequence exactly when they are verbatim. -/
theorem readValues_iff {contents : List (List Char)} {rest : List Char}
    (nonempty : contents ≠ []) (noQuote : NotAhead '\'' rest) (noComma : NotAhead ',' rest) :
    readValues escape (separated quote contents ++ rest) = some (contents, rest) ↔
      ∀ content ∈ contents, Verbatim escape content :=
  ⟨fun reads => compact_readValues.good reads,
    fun verbatim => readValues_separated nonempty verbatim noQuote noComma⟩

/-- Tuples come back from their sequence exactly when all their contents are verbatim. -/
theorem readTuples_iff {rows : List (List (List Char))} (nonempty : rows ≠ [])
    (filled : ∀ row ∈ rows, row ≠ []) :
    readTuples escape (separated tuple rows) = some (rows, []) ↔
      ∀ row ∈ rows, ∀ content ∈ row, Verbatim escape content := by
  constructor
  · intro reads
    apply (compact_readTuple.readSeparated _).good
    rwa [List.append_nil]
  · intro verbatim
    rw [readTuples, ← List.append_nil (separated tuple rows)]
    apply readSeparated_separated nonempty
    · rw [List.append_nil]
      exact length_le_separated (fun _ => List.cons_ne_nil _ _) rows
    · exact notAhead_nil ','
    · exact fun row member after _ =>
        readTuple_tuple after (filled row member) (verbatim row member)

/-- The rows of a statement come back exactly when all their contents are verbatim. -/
theorem readStatement_iff {head : List Char} {rows : List (List (List Char))}
    (nonempty : rows ≠ []) (filled : ∀ row ∈ rows, row ≠ []) :
    readStatement escape head (head ++ separated tuple rows) = some rows ↔
      ∀ row ∈ rows, ∀ content ∈ row, Verbatim escape content := by
  have begins : head.isPrefixOf (head ++ separated tuple rows) = true :=
    List.isPrefixOf_iff_prefix.mpr (List.prefix_append _ _)
  rw [← readTuples_iff nonempty filled, readStatement, if_pos begins, List.drop_left]
  constructor
  · intro read
    split at read
    · rename_i same
      rw [same, Option.some.inj read]
    · exact absurd read (by simp)
  · intro read
    rw [read]

end Cncpp.Sql

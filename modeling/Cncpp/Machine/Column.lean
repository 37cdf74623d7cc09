import Mathlib.Algebra.GroupWithZero.Nat
import Mathlib.Data.List.Basic

/-!
# Columns of a text

A record that is printed column by column, each column with a fixed width and in an order
that agrees with the order of its values, is ordered as a text as it is ordered as a list of
values.  Texts are compared character by character, lists of values from their first
difference on.
-/

namespace Cncpp.Machine

universe u

variable {α : Type u} [LT α]

/-- The first difference lies in the front parts, which are equally long. -/
theorem append_lt_append {front other back rest : List α} (length : front.length = other.length)
    (less : front < other) : front ++ back < other ++ rest := by
  induction front generalizing other with
  | nil =>
      rw [List.eq_nil_of_length_eq_zero length.symm] at less
      exact absurd less (List.not_lt_nil _)
  | cons a front ih =>
      cases other with
      | nil => exact absurd less (List.not_lt_nil _)
      | cons b other =>
          rw [List.cons_lt_cons_iff] at less
          rw [List.cons_append, List.cons_append, List.cons_lt_cons_iff]
          rcases less with first | ⟨same, later⟩
          · exact Or.inl first
          · exact Or.inr ⟨same, ih (Nat.succ.inj length) later⟩

/-- A column: the texts of its values have one length, and are ordered like the values. -/
structure Column (α : Type u) [LT α] where
  text : Nat → List α
  Ok : Nat → Prop
  length : ∀ {first second}, Ok first → Ok second →
    (text first).length = (text second).length
  lt : ∀ {first second}, Ok first → Ok second → first < second → text first < text second

namespace Column

/-- A separator behind the values of a column. -/
def followedBy (column : Column α) (separator : List α) : Column α where
  text value := column.text value ++ separator
  Ok := column.Ok
  length first second := by
    rw [List.length_append, List.length_append, column.length first second]
  lt first second less :=
    append_lt_append (column.length first second) (column.lt first second less)

/-- The columns of a record, one after the other. -/
def render : List (Column α) → List Nat → List α
  | column :: columns, value :: values => column.text value ++ render columns values
  | _, _ => []

/-- The values fit the columns. -/
def Fits : List (Column α) → List Nat → Prop :=
  List.Forall₂ Column.Ok

/-- The texts of records have one length. -/
theorem length_render {columns : List (Column α)} {first second : List Nat}
    (firstFits : Fits columns first) (secondFits : Fits columns second) :
    (render columns first).length = (render columns second).length := by
  induction columns generalizing first second with
  | nil =>
      cases firstFits
      cases secondFits
      rfl
  | cons column columns ih =>
      cases firstFits with
      | cons firstOk firstRest =>
          cases secondFits with
          | cons secondOk secondRest =>
              rw [render, render, List.length_append, List.length_append,
                column.length firstOk secondOk, ih firstRest secondRest]

/-- Records are ordered by their texts. -/
theorem render_lt {columns : List (Column α)} {first second : List Nat}
    (firstFits : Fits columns first) (secondFits : Fits columns second)
    (less : first < second) : render columns first < render columns second := by
  induction columns generalizing first second with
  | nil =>
      cases secondFits
      exact absurd less (List.not_lt_nil _)
  | cons column columns ih =>
      cases firstFits with
      | cons firstOk firstRest =>
          cases secondFits with
          | cons secondOk secondRest =>
              rw [render, render]
              rcases List.cons_lt_cons_iff.mp less with smaller | ⟨rfl, later⟩
              · exact append_lt_append (column.length firstOk secondOk)
                  (column.lt firstOk secondOk smaller)
              · exact List.append_left_lt (ih firstRest secondRest later)

end Column

/-! ## Decimal columns -/

theorem digitChar_lt : ∀ second < 10, ∀ first < second, first.digitChar < second.digitChar := by
  decide

/-- The last digits of a number, with zeros in front. -/
def decimals : Nat → Nat → List Char
  | 0, _ => []
  | width + 1, value => decimals width (value / 10) ++ [(value % 10).digitChar]

@[simp]
theorem length_decimals (width value : Nat) : (decimals width value).length = width := by
  induction width generalizing value with
  | zero => rfl
  | succ width ih => rw [decimals, List.length_append, ih, List.length_singleton]

theorem decimals_lt {width first second : Nat} (less : first < second)
    (fits : second < 10 ^ width) : decimals width first < decimals width second := by
  induction width generalizing first second with
  | zero =>
      rw [Nat.pow_zero] at fits
      omega
  | succ width ih =>
      have front : second / 10 < 10 ^ width := by
        rw [Nat.pow_succ] at fits
        omega
      rw [decimals, decimals]
      by_cases tens : first / 10 < second / 10
      · apply append_lt_append
        · rw [length_decimals, length_decimals]
        · exact ih tens front
      · have same : first / 10 = second / 10 := by omega
        have last : first % 10 < second % 10 := by omega
        rw [same]
        apply List.append_left_lt
        exact List.cons_lt_cons_iff.mpr
          (Or.inl (digitChar_lt _ (Nat.mod_lt _ (by decide)) _ last))

/-- The last digits of the values below a power of ten. -/
def decimalColumn (width : Nat) : Column Char where
  text := decimals width
  Ok value := value < 10 ^ width
  length _ _ := by rw [length_decimals, length_decimals]
  lt _ fits less := decimals_lt less fits

end Cncpp.Machine

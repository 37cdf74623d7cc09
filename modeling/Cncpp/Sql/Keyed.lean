import Mathlib.Data.List.Induction
import Mathlib.Logic.Function.Basic

/-!
# Rows by key

What a table holds under a key of its rows.  Saving a row removes the row that stands
under its key before.  When rows are saved one after the other, the last row of each key
stays, so rows that are saved again later do not show.
-/

namespace Cncpp.Sql.Keyed

universe u v

variable {Key : Type u} {Row : Type v} [DecidableEq Key]

/-- The row under each key. -/
abbrev Rows (Key : Type u) (Row : Type v) := Key → Option Row

/-- Save one row. -/
def save (key : Row → Key) (table : Rows Key Row) (row : Row) : Rows Key Row :=
  Function.update table (key row) (some row)

/-- Save rows from first to last. -/
def saveAll (key : Row → Key) (table : Rows Key Row) (rows : List Row) : Rows Key Row :=
  rows.foldl (save key) table

variable (key : Row → Key) (table : Rows Key Row)

@[simp]
theorem saveAll_nil : saveAll key table [] = table :=
  rfl

@[simp]
theorem saveAll_cons (row : Row) (rows : List Row) :
    saveAll key table (row :: rows) = saveAll key (save key table row) rows :=
  rfl

theorem saveAll_append (first second : List Row) :
    saveAll key table (first ++ second) = saveAll key (saveAll key table first) second :=
  List.foldl_append

/-- The last row of a key, or what was there before. -/
theorem saveAll_apply (rows : List Row) (which : Key) :
    saveAll key table rows which =
      ((rows.filter fun row => key row = which).getLast?).or (table which) := by
  induction rows using List.reverseRecOn with
  | nil => simp
  | append_singleton rows row ih =>
      rw [saveAll_append, saveAll_cons, saveAll_nil, save, List.filter_append]
      by_cases here : key row = which
      · simp [← here]
      · rw [Function.update_of_ne (Ne.symm here), ih]
        simp [here]

/-- Rows that are saved afterwards under all the keys hide the rows before them. -/
theorem saveAll_hidden {first second : List Row}
    (covered : ∀ row ∈ first, ∃ later ∈ second, key later = key row) :
    saveAll key (saveAll key table first) second = saveAll key table second := by
  funext which
  rw [saveAll_apply, saveAll_apply, saveAll_apply]
  cases found : (second.filter fun row => key row = which).getLast? with
  | some last => rfl
  | none =>
      have absent : first.filter (fun row => key row = which) = [] := by
        rw [List.filter_eq_nil_iff]
        intro row member same
        obtain ⟨later, listed, laterKey⟩ := covered row member
        have empty := List.getLast?_eq_none_iff.mp found
        rw [List.filter_eq_nil_iff] at empty
        apply empty later listed
        simpa [laterKey] using same
      rw [absent]
      simp

/-- The rows of a table, each once, in some order. -/
structure Lists (rows : List Row) : Prop where
  mem : ∀ row, row ∈ rows ↔ table (key row) = some row
  nodup : (rows.map key).Nodup

end Cncpp.Sql.Keyed

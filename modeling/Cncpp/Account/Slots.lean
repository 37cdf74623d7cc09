import Mathlib.Data.List.Basic
import Mathlib.Data.List.Perm.Basic
import Mathlib.Data.List.ReduceOption

/-!
# Slots

A list of slots, each of which is empty or holds one item.  Writing a slot puts one content
in and takes another out; the items of the slots and those outside of them are the same before
and after.
-/

namespace Cncpp.Account.Slots

universe u v

variable {Item : Type u}

theorem reduceOption_cons (slot : Option Item) (slots : List (Option Item)) :
    (slot :: slots).reduceOption = slot.toList ++ slots.reduceOption := by
  rw [← List.singleton_append, List.reduceOption_append, List.reduceOption_singleton]

/-- Writing a slot exchanges its content. -/
theorem reduceOption_set_perm {slots : List (Option Item)} {index : Nat} {old : Option Item}
    (here : slots[index]? = some old) (new : Option Item) :
    (old.toList ++ (slots.set index new).reduceOption).Perm
      (new.toList ++ slots.reduceOption) := by
  induction slots generalizing index with
  | nil => simp at here
  | cons slot slots ih =>
      cases index with
      | zero =>
          rw [List.getElem?_cons_zero, Option.some.injEq] at here
          rw [here, List.set_cons_zero, reduceOption_cons, reduceOption_cons]
          exact List.perm_append_comm_assoc _ _ _
      | succ index =>
          rw [List.getElem?_cons_succ] at here
          rw [List.set_cons_succ, reduceOption_cons, reduceOption_cons]
          exact (List.perm_append_comm_assoc _ _ _).trans
            (((ih here).append_left _).trans (List.perm_append_comm_assoc _ _ _))

/-- Removing a slot takes its content out. -/
theorem reduceOption_eraseIdx_perm {slots : List (Option Item)} {index : Nat}
    {old : Option Item} (here : slots[index]? = some old) :
    (old.toList ++ (slots.eraseIdx index).reduceOption).Perm slots.reduceOption := by
  induction slots generalizing index with
  | nil => simp at here
  | cons slot slots ih =>
      cases index with
      | zero =>
          rw [List.getElem?_cons_zero, Option.some.injEq] at here
          rw [here, List.eraseIdx_cons_zero, reduceOption_cons]
      | succ index =>
          rw [List.getElem?_cons_succ] at here
          rw [List.eraseIdx_cons_succ, reduceOption_cons, reduceOption_cons]
          exact (List.perm_append_comm_assoc _ _ _).trans ((ih here).append_left _)

/-- Overwriting an entry does not show where the new one looks like the old one. -/
theorem map_set_of_eq {Look : Type v} {entries : List Item} {index : Nat} {old new : Item}
    {look : Item → Look} (here : entries[index]? = some old) (same : look new = look old) :
    (entries.set index new).map look = entries.map look := by
  obtain ⟨bound, rfl⟩ := List.getElem?_eq_some_iff.mp here
  rw [List.map_set, same, ← List.getElem_map look, List.set_getElem_self]
  rwa [List.length_map]

end Cncpp.Account.Slots

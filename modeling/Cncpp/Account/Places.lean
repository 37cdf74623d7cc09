import Mathlib.Data.List.Nodup
import Mathlib.Data.List.Pairwise
import Mathlib.Data.List.Perm.Basic
import Mathlib.Logic.Function.Basic

/-!
# Items in places

Items that are handed on from place to place are accounted for by listing the
contents of all places.  A step that moves items from one place to another
permutes this list, and where the list has no duplicates every item is in exactly
one place.
-/

namespace Cncpp.Account

universe u v

variable {Place : Type u} {Item : Type v}

/-- Everything that the places contain. -/
def total (places : List Place) (contents : Place → List Item) : List Item :=
  places.flatMap contents

variable {places : List Place} {contents next : Place → List Item}

theorem mem_total {item : Item} :
    item ∈ total places contents ↔ ∃ place ∈ places, item ∈ contents place :=
  List.mem_flatMap

/-- Only the contents of the listed places count. -/
theorem total_congr (same : ∀ place ∈ places, next place = contents place) :
    total places next = total places contents :=
  List.flatMap_congr same

section Change

variable [DecidableEq Place]

/-- One place and the others. -/
theorem total_perm_erase {place : Place} (listed : place ∈ places) :
    (total places contents).Perm (contents place ++ total (places.erase place) contents) :=
  (List.perm_cons_erase listed).flatMap_right contents

/-- Items that are added to one place are added to the total. -/
theorem total_perm_of_put (nodup : places.Nodup) {place : Place} (listed : place ∈ places)
    {items : List Item} (put : (next place).Perm (items ++ contents place))
    (others : ∀ other, other ≠ place → next other = contents other) :
    (total places next).Perm (items ++ total places contents) := by
  have same : total (places.erase place) next = total (places.erase place) contents := by
    apply total_congr
    intro other member
    apply others
    rintro rfl
    exact nodup.not_mem_erase member
  have after : (total places next).Perm (next place ++ total (places.erase place) next) :=
    total_perm_erase listed
  have rest : (total places contents).Perm
      (contents place ++ total (places.erase place) contents) := total_perm_erase listed
  rw [same] at after
  have before := rest.symm.append_left items
  rw [← List.append_assoc] at before
  exact (after.trans (put.append_right _)).trans before

/-- Items that move from one place to another keep the total. -/
theorem total_perm_of_move (nodup : places.Nodup) {source target : Place}
    (sourceListed : source ∈ places) (targetListed : target ∈ places) (apart : target ≠ source)
    {items : List Item} (taken : (contents source).Perm (items ++ next source))
    (put : (next target).Perm (items ++ contents target))
    (others : ∀ other, other ≠ source → other ≠ target → next other = contents other) :
    (total places next).Perm (total places contents) := by
  let middle := Function.update contents source (next source)
  have atSource : middle source = next source := Function.update_self _ _ _
  have elsewhere : ∀ other, other ≠ source → middle other = contents other :=
    fun other different => Function.update_of_ne different _ _
  have before : (total places contents).Perm (items ++ total places middle) := by
    apply total_perm_of_put nodup sourceListed
    · rw [atSource]
      exact taken
    · intro other different
      exact (elsewhere other different).symm
  have after : (total places next).Perm (items ++ total places middle) := by
    apply total_perm_of_put nodup targetListed
    · rw [elsewhere target apart]
      exact put
    · intro other different
      by_cases same : other = source
      · rw [same, atSource]
      · rw [elsewhere other same]
        exact others other same different
  exact after.trans before.symm

end Change

/-- Where nothing is listed twice, every item is in exactly one place, once. -/
theorem located [DecidableEq Item] (nodup : (total places contents).Nodup) {item : Item}
    (member : item ∈ total places contents) :
    ∃ place ∈ places, (contents place).count item = 1 ∧
      ∀ other ∈ places, item ∈ contents other → other = place := by
  obtain ⟨place, listed, inside⟩ := mem_total.mp member
  obtain ⟨each, disjoint⟩ := List.nodup_flatMap.mp nodup
  refine ⟨place, listed, List.count_eq_one_of_mem (each place listed) inside, ?_⟩
  intro other otherListed alsoInside
  by_contra different
  have symmetric : Std.Symm (Function.onFun List.Disjoint contents) :=
    ⟨fun _ _ sep _ first second => sep second first⟩
  have apart := disjoint.forall otherListed listed different
  exact apart alsoInside inside

end Cncpp.Account

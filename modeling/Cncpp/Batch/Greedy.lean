import Mathlib.Data.List.Basic
import Mathlib.Data.List.Infix

/-!
# Greedy batches

Items are collected into batches; a batch is closed as soon as it is full, and what
remains at the end is the last batch.  This module describes the partition: nothing is
lost, no batch is empty, and the full batches are those whose proper beginnings are not
full.
-/

namespace Cncpp.Batch

universe u

variable {α : Type u}

/-- The batches of `items`, where `current` has been collected already. -/
def batches (full : List α → Bool) : List α → List α → List (List α)
  | current, [] => if current.isEmpty then [] else [current]
  | current, item :: items =>
      if full (current ++ [item]) then (current ++ [item]) :: batches full [] items
      else batches full (current ++ [item]) items

/-- No beginning of the batch but the empty one is full. -/
def Open (full : List α → Bool) (batch : List α) : Prop :=
  ∀ front, front <+: batch → front ≠ [] → full front = false

/-- The batch becomes full with its last item. -/
def Filled (full : List α → Bool) (batch : List α) : Prop :=
  ∃ front last, batch = front ++ [last] ∧ Open full front ∧ full batch = true

variable {full : List α → Bool}

theorem open_nil : Open full [] := by
  intro front isPrefix nonempty
  exact absurd (List.prefix_nil.mp isPrefix) nonempty

theorem Open.concat {batch : List α} {item : α} (isOpen : Open full batch)
    (notFull : full (batch ++ [item]) = false) : Open full (batch ++ [item]) := by
  intro front isPrefix nonempty
  rcases List.prefix_concat_iff.mp isPrefix with rfl | before
  · exact notFull
  · exact isOpen front before nonempty

/-- Nothing is lost, duplicated or reordered. -/
theorem flatten_batches (full : List α → Bool) (current items : List α) :
    (batches full current items).flatten = current ++ items := by
  induction items generalizing current with
  | nil =>
      cases current with
      | nil => rfl
      | cons item rest => simp [batches]
  | cons item items ih =>
      rw [batches]
      split
      · rw [List.flatten_cons, ih, List.nil_append, List.append_assoc, List.singleton_append]
      · rw [ih, List.append_assoc, List.singleton_append]

/-- No batch is empty. -/
theorem batches_ne_nil {current items batch : List α}
    (member : batch ∈ batches full current items) : batch ≠ [] := by
  induction items generalizing current with
  | nil =>
      cases current with
      | nil => simp [batches] at member
      | cons item rest =>
          rw [List.mem_singleton.mp member]
          exact List.cons_ne_nil item rest
  | cons item items ih =>
      rw [batches] at member
      split at member
      · rcases List.mem_cons.mp member with rfl | later
        · exact List.concat_ne_nil item current
        · exact ih later
      · exact ih member

/-- Collecting an open batch closes nothing. -/
theorem batches_open {current batch items : List α} (isOpen : Open full (current ++ batch)) :
    batches full current (batch ++ items) = batches full (current ++ batch) items := by
  induction batch generalizing current with
  | nil => rw [List.nil_append, List.append_nil]
  | cons item batch ih =>
      have regroup : current ++ item :: batch = current ++ [item] ++ batch := by
        rw [List.append_assoc, List.singleton_append]
      rw [regroup] at isOpen ⊢
      have first : full (current ++ [item]) = false :=
        isOpen _ (List.prefix_append _ _) (List.concat_ne_nil item current)
      rw [List.cons_append, batches, first, if_neg Bool.false_ne_true, ih isOpen]

/-- Filled batches are closed one after the other. -/
theorem batches_filled {closed : List (List α)} (filled : ∀ batch ∈ closed, Filled full batch)
    (items : List α) :
    batches full [] (closed.flatten ++ items) = closed ++ batches full [] items := by
  induction closed with
  | nil => rfl
  | cons batch closed ih =>
      obtain ⟨front, last, rfl, isOpen, isFull⟩ := filled batch List.mem_cons_self
      have later := ih fun other member => filled other (List.mem_cons_of_mem _ member)
      rw [List.flatten_cons, List.append_assoc, List.append_assoc, batches_open isOpen,
        List.nil_append, List.singleton_append, batches, isFull, if_pos rfl, later]
      rfl

/-- Every batch is open, or it is full and stands behind filled batches. -/
theorem mem_batches {current items batch : List α} (isOpen : Open full current)
    (member : batch ∈ batches full current items) :
    Open full batch ∨ (Filled full batch ∧ ∃ (closed : List (List α)) (rest : List α),
      (∀ other ∈ closed, Filled full other) ∧
        current ++ items = closed.flatten ++ batch ++ rest) := by
  induction items generalizing current with
  | nil =>
      cases current with
      | nil => simp [batches] at member
      | cons item rest =>
          rw [List.mem_singleton.mp member]
          exact Or.inl isOpen
  | cons item items ih =>
      have regroup : current ++ item :: items = current ++ [item] ++ items := by
        rw [List.append_assoc, List.singleton_append]
      rw [batches] at member
      rw [regroup]
      split at member
      · rename_i isFull
        have filled : Filled full (current ++ [item]) := ⟨current, item, rfl, isOpen, isFull⟩
        rcases List.mem_cons.mp member with rfl | later
        · exact Or.inr ⟨filled, [], items, by simp, rfl⟩
        · rcases ih open_nil later with still | ⟨behind, closed, rest, allFilled, same⟩
          · exact Or.inl still
          · refine Or.inr ⟨behind, (current ++ [item]) :: closed, rest, ?_, ?_⟩
            · intro other inside
              rcases List.mem_cons.mp inside with rfl | old
              · exact filled
              · exact allFilled other old
            · rw [List.nil_append] at same
              rw [same]
              simp [List.append_assoc]
      · rename_i notFull
        exact ih (isOpen.concat (by simpa using notFull)) member

end Cncpp.Batch

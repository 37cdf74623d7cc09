import Mathlib.Data.List.Basic

/-!
# Outlines

A tree printed line by line: a leaf is one line, and a block is an opening line, its children
indented further, and a closing line.  Blanks stand in front of every line, as many as the
line is deep.  If no leaf starts with a blank or looks like an opening or a closing line, the
lines determine the tree: a reader that ignores the indentation and keeps the blocks that are
open on a stack gets it back.
-/

namespace Cncpp.Stream

universe u

/-- A tree of lines. -/
inductive Outline (α : Type u) where
  | leaf (content : List α)
  | block (children : List (Outline α))

namespace Outline

variable {α : Type u}

/-- What an outline looks like. -/
structure Layout (α : Type u) where
  blank : α
  opening : List α
  closing : List α
  step : Nat

/-- Lines that stand in front of blanks. -/
def Layout.indented (layout : Layout α) (indent : Nat) (content : List α) : List α :=
  List.replicate indent layout.blank ++ content

section Lines

variable (layout : Layout α)

mutual

/-- The lines of a tree. -/
def lines (indent : Nat) : Outline α → List (List α)
  | leaf content => [layout.indented indent content]
  | block children =>
      layout.indented indent layout.opening ::
        (linesAll (indent + layout.step) children ++ [layout.indented indent layout.closing])

/-- The lines of trees. -/
def linesAll (indent : Nat) : List (Outline α) → List (List α)
  | [] => []
  | tree :: trees => lines indent tree ++ linesAll indent trees

end

mutual

/-- All leaves of a tree. -/
def Leaves (Ok : List α → Prop) : Outline α → Prop
  | leaf content => Ok content
  | block children => LeavesAll Ok children

/-- All leaves of trees. -/
def LeavesAll (Ok : List α → Prop) : List (Outline α) → Prop
  | [] => True
  | tree :: trees => Leaves Ok tree ∧ LeavesAll Ok trees

end

mutual

/-- What holds of the leaves and of the two fixed lines holds of all lines. -/
theorem forall_lines {Ok : List α → Prop} {indent : Nat}
    (deeper : ∀ depth content, Ok content → Ok (layout.indented depth content))
    (opening : Ok layout.opening) (closing : Ok layout.closing) :
    ∀ {tree : Outline α}, Leaves Ok tree → ∀ line ∈ lines layout indent tree, Ok line
  | leaf content, leaves, line, member => by
      rw [List.mem_singleton.mp member]
      exact deeper _ _ leaves
  | block children, leaves, line, member => by
      rw [lines, List.mem_cons, List.mem_append, List.mem_singleton] at member
      rcases member with rfl | inside | rfl
      · exact deeper _ _ opening
      · exact forall_linesAll deeper opening closing leaves line inside
      · exact deeper _ _ closing

theorem forall_linesAll {Ok : List α → Prop} {indent : Nat}
    (deeper : ∀ depth content, Ok content → Ok (layout.indented depth content))
    (opening : Ok layout.opening) (closing : Ok layout.closing) :
    ∀ {trees : List (Outline α)}, LeavesAll Ok trees →
      ∀ line ∈ linesAll layout indent trees, Ok line
  | [], _, line, member => absurd member List.not_mem_nil
  | tree :: trees, leaves, line, member => by
      rw [linesAll, List.mem_append] at member
      rcases member with first | later
      · exact forall_lines deeper opening closing leaves.1 line first
      · exact forall_linesAll deeper opening closing leaves.2 line later

end

end Lines

section Read

variable [DecidableEq α] (layout : Layout α)

/-- Reads lines: the trees read so far in the innermost open block, last first, and those of
the blocks around it. -/
def read : List (List α) → List (Outline α) → List (List (Outline α)) →
    Option (List (Outline α))
  | [], here, [] => some here.reverse
  | [], _, _ :: _ => none
  | line :: rest, here, around =>
      let content := line.dropWhile (· == layout.blank)
      if content = layout.opening then read rest [] (here :: around)
      else if content = layout.closing then
        match around with
        | outer :: around => read rest (block here.reverse :: outer) around
        | [] => none
      else read rest (leaf content :: here) around

/-- A line that the reader takes for a leaf, whatever its indentation. -/
structure Readable (content : List α) : Prop where
  unindented : content.head? ≠ some layout.blank
  not_opening : content ≠ layout.opening
  not_closing : content ≠ layout.closing

/-- The two fixed lines can be told apart. -/
structure Layout.Distinct : Prop where
  opening : layout.opening.head? ≠ some layout.blank
  closing : layout.closing.head? ≠ some layout.blank
  apart : layout.closing ≠ layout.opening

variable {layout}

theorem dropWhile_indented {content : List α} (unindented : content.head? ≠ some layout.blank)
    (indent : Nat) :
    (layout.indented indent content).dropWhile (· == layout.blank) = content := by
  induction indent with
  | zero =>
      cases content with
      | nil => rfl
      | cons c content =>
          have other : c ≠ layout.blank := fun same => unindented (congrArg some same)
          exact List.dropWhile_cons_of_neg (by simpa using other)
  | succ indent ih =>
      rw [Layout.indented, List.replicate_succ, List.cons_append,
        List.dropWhile_cons_of_pos (by simp)]
      exact ih

section Step

variable (rest : List (List α)) (here : List (Outline α)) (around : List (List (Outline α)))

theorem read_leaf {content : List α} (readable : Readable layout content) (indent : Nat) :
    read layout (layout.indented indent content :: rest) here around =
      read layout rest (leaf content :: here) around := by
  rw [read.eq_def]
  simp only [dropWhile_indented readable.unindented, if_neg readable.not_opening,
    if_neg readable.not_closing]

theorem read_opening (distinct : layout.Distinct) (indent : Nat) :
    read layout (layout.indented indent layout.opening :: rest) here around =
      read layout rest [] (here :: around) := by
  rw [read.eq_def]
  simp only [dropWhile_indented distinct.opening, if_true]

theorem read_closing (distinct : layout.Distinct) (indent : Nat) (outer : List (Outline α)) :
    read layout (layout.indented indent layout.closing :: rest) here (outer :: around) =
      read layout rest (block here.reverse :: outer) around := by
  rw [read]
  simp only [dropWhile_indented distinct.closing, if_neg distinct.apart, if_true]

end Step

mutual

/-- The lines of a tree are read as this tree. -/
theorem read_lines (distinct : layout.Distinct) (rest : List (List α)) :
    ∀ (indent : Nat) {tree : Outline α} (here : List (Outline α))
      (around : List (List (Outline α))), Leaves (Readable layout) tree →
      read layout (lines layout indent tree ++ rest) here around =
        read layout rest (tree :: here) around
  | indent, leaf content, here, around, leaves => read_leaf rest here around leaves indent
  | indent, block children, here, around, leaves => by
      rw [lines, List.cons_append, read_opening _ _ _ distinct, List.append_assoc,
        read_linesAll distinct _ _ [] (here :: around) leaves, List.append_nil,
        List.singleton_append, read_closing _ _ _ distinct, List.reverse_reverse]

theorem read_linesAll (distinct : layout.Distinct) (rest : List (List α)) :
    ∀ (indent : Nat) {trees : List (Outline α)} (here : List (Outline α))
      (around : List (List (Outline α))), LeavesAll (Readable layout) trees →
      read layout (linesAll layout indent trees ++ rest) here around =
        read layout rest (trees.reverse ++ here) around
  | _, [], _, _, _ => rfl
  | indent, tree :: trees, here, around, leaves => by
      rw [linesAll, List.append_assoc, read_lines distinct _ indent here around leaves.1,
        read_linesAll distinct rest indent (tree :: here) around leaves.2, List.reverse_cons,
        List.append_assoc, List.singleton_append]

end

/-- The lines determine the tree. -/
theorem lines_injective (distinct : layout.Distinct) {indent depth : Nat}
    {first second : Outline α} (firstLeaves : Leaves (Readable layout) first)
    (secondLeaves : Leaves (Readable layout) second)
    (same : lines layout indent first = lines layout depth second) : first = second := by
  have firstRead := read_lines distinct [] indent [] [] firstLeaves
  have secondRead := read_lines distinct [] depth [] [] secondLeaves
  rw [same, secondRead] at firstRead
  exact (List.head_eq_of_cons_eq (Option.some.inj firstRead)).symm

end Read

end Outline

end Cncpp.Stream

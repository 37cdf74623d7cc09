import Cncpp.Transition.Run
import Mathlib.Data.List.Infix
import Mathlib.Data.List.Nodup

/-!
# Chains whose links are stored late

Several producers append to a singly linked chain in two steps: the first makes
a node the last one, the second stores the link from its predecessor.  Between
the two the chain is broken.  This module describes such a chain by the order in
which the nodes were appended; every gap of the order is either linked or
waiting for exactly one producer.  It supplies the rules for appending, for the
late link, and for removing the front.
-/

namespace Cncpp.Queue

open Cncpp.Transition

universe u v

variable {N : Type u} {P : Type v}

/-- `left` stands directly before `right`. -/
def Adjacent (order : List N) (left right : N) : Prop :=
  [left, right] <:+: order

theorem adjacent_cons_iff {first left right : N} {order : List N} :
    Adjacent (first :: order) left right ↔
      (left = first ∧ order.head? = some right) ∨ Adjacent order left right := by
  rw [Adjacent, List.infix_cons_iff, List.cons_prefix_cons]
  cases order with
  | nil => simp [Adjacent]
  | cons second rest => simp [Adjacent, List.cons_prefix_cons, eq_comm]

theorem not_adjacent_singleton {node left right : N} : ¬ Adjacent [node] left right := by
  intro adjacent
  have length := adjacent.length_le
  simp at length

theorem adjacent_concat_iff {last left right : N} {order : List N} :
    Adjacent (order ++ [last]) left right ↔
      Adjacent order left right ∨ (order.getLast? = some left ∧ right = last) := by
  induction order with
  | nil =>
      constructor
      · intro adjacent
        exact absurd adjacent not_adjacent_singleton
      · rintro (adjacent | ⟨inside, _⟩)
        · exact absurd adjacent.length_le (by simp)
        · contradiction
  | cons first rest ih =>
      rw [List.cons_append, adjacent_cons_iff, adjacent_cons_iff, ih, or_assoc]
      cases rest with
      | nil =>
          simp only [List.nil_append, List.head?_cons, List.head?_nil, List.getLast?_nil,
            List.getLast?_singleton, Option.some.injEq, reduceCtorEq, and_false, false_and,
            false_or, or_false]
          constructor
          · rintro (⟨rfl, rfl⟩ | inside)
            · exact Or.inr ⟨rfl, rfl⟩
            · exact Or.inl inside
          · rintro (inside | ⟨rfl, rfl⟩)
            · exact Or.inr inside
            · exact Or.inl ⟨rfl, rfl⟩
      | cons second rest => rfl

theorem Adjacent.left_mem {order : List N} {left right : N} (adjacent : Adjacent order left right) :
    left ∈ order :=
  adjacent.subset List.mem_cons_self

/-- Nothing stands behind the last node. -/
theorem not_adjacent_last {order : List N} (nodup : order.Nodup) {last right : N}
    (ends : order.getLast? = some last) : ¬ Adjacent order last right := by
  induction order with
  | nil => contradiction
  | cons first rest ih =>
      rcases List.nodup_cons.mp nodup with ⟨new, restNodup⟩
      cases rest with
      | nil => exact not_adjacent_singleton
      | cons second rest =>
          rw [List.getLast?_cons_cons] at ends
          intro adjacent
          rcases adjacent_cons_iff.mp adjacent with ⟨rfl, _⟩ | inside
          · exact new (List.mem_of_getLast? ends)
          · exact ih restNodup ends inside

/-- A node has at most one successor. -/
theorem Adjacent.unique {order : List N} (nodup : order.Nodup) {left right other : N}
    (first : Adjacent order left right) (second : Adjacent order left other) :
    right = other := by
  induction order with
  | nil => exact absurd first.length_le (by simp)
  | cons node rest ih =>
      rcases List.nodup_cons.mp nodup with ⟨new, restNodup⟩
      rcases adjacent_cons_iff.mp first with ⟨rfl, behind⟩ | firstInside
      · rcases adjacent_cons_iff.mp second with ⟨_, alsoBehind⟩ | secondInside
        · rw [behind] at alsoBehind
          exact Option.some.inj alsoBehind
        · exact absurd secondInside.left_mem new
      · rcases adjacent_cons_iff.mp second with ⟨rfl, _⟩ | secondInside
        · exact absurd firstInside.left_mem new
        · exact ih restNodup firstInside secondInside

/-- The chain of the nodes in `order`.  `pending` gives, for every producer that
has appended a node but not stored the link to it, the predecessor and the node. -/
structure Linked (order : List N) (link : N → Option N) (pending : P → Option (N × N)) :
    Prop where
  nodup : order.Nodup
  /-- A stored link leads to the next node. -/
  link_adjacent : ∀ left ∈ order, ∀ right, link left = some right → Adjacent order left right
  /-- A late link belongs to a gap, and nothing is stored there yet. -/
  pending_adjacent : ∀ producer left right, pending producer = some (left, right) →
    Adjacent order left right ∧ link left = none
  /-- Every gap is linked or waiting. -/
  covered : ∀ left right, Adjacent order left right →
    link left = some right ∨ ∃ producer, pending producer = some (left, right)
  /-- No two producers are late with the same gap. -/
  single : ∀ first second left right other, pending first = some (left, right) →
    pending second = some (left, other) → first = second

namespace Linked

variable {order : List N} {link : N → Option N} {pending : P → Option (N × N)}

/-- A chain of one node. -/
theorem singleton {node : N} (unlinked : link node = none) :
    Linked [node] link (fun _ : P => none) where
  nodup := List.nodup_singleton node
  link_adjacent := by
    intro left member right stored
    rw [List.mem_singleton.mp member, unlinked] at stored
    contradiction
  pending_adjacent := by
    intro producer left right late
    contradiction
  covered := by
    intro left right adjacent
    have length := adjacent.length_le
    simp at length
  single := by
    intro first second left right other late
    contradiction

/-- The last node is not linked. -/
theorem link_last (linked : Linked order link pending) {last : N}
    (ends : order.getLast? = some last) : link last = none := by
  cases stored : link last with
  | none => rfl
  | some right =>
      have member := List.mem_of_getLast? ends
      exact absurd (linked.link_adjacent last member right stored)
        (not_adjacent_last linked.nodup ends)

/-- Only the links of the chain matter. -/
theorem congr (linked : Linked order link pending) {other : N → Option N}
    (agree : ∀ node ∈ order, other node = link node) : Linked order other pending where
  nodup := linked.nodup
  link_adjacent := by
    intro left member right stored
    rw [agree left member] at stored
    exact linked.link_adjacent left member right stored
  pending_adjacent := by
    intro producer left right late
    obtain ⟨adjacent, unlinked⟩ := linked.pending_adjacent producer left right late
    exact ⟨adjacent, (agree left adjacent.left_mem).trans unlinked⟩
  covered := by
    intro left right adjacent
    rw [agree left adjacent.left_mem]
    exact linked.covered left right adjacent
  single := linked.single

variable [DecidableEq P]

/-- A producer that is not late appends a node; the link to it is now late. -/
theorem append (linked : Linked order link pending) {last node : N} {producer : P}
    (ends : order.getLast? = some last) (new : node ∉ order) (unlinked : link node = none)
    (ready : pending producer = none) :
    Linked (order ++ [node]) link (Function.update pending producer (some (last, node))) := by
  have old : ∀ {other left right},
      Function.update pending producer (some (last, node)) other = some (left, right) →
      (other = producer ∧ left = last ∧ right = node) ∨ pending other = some (left, right) := by
    intro other left right late
    rcases update_eq_some_iff.mp late with ⟨same, new⟩ | ⟨_, before⟩
    · cases new
      exact Or.inl ⟨same, rfl, rfl⟩
    · exact Or.inr before
  have untouched : ∀ {other right}, pending other ≠ some (last, right) := by
    intro other right late
    exact not_adjacent_last linked.nodup ends (linked.pending_adjacent other last right late).1
  constructor
  · rw [List.nodup_append]
    refine ⟨linked.nodup, List.nodup_singleton node, ?_⟩
    rintro member inside other found rfl
    exact new (List.mem_singleton.mp found ▸ inside)
  · intro left member right stored
    rcases List.mem_append.mp member with inside | last
    · exact adjacent_concat_iff.mpr (Or.inl (linked.link_adjacent left inside right stored))
    · rw [List.mem_singleton.mp last, unlinked] at stored
      contradiction
  · intro other left right late
    rcases old late with ⟨_, rfl, rfl⟩ | before
    · exact ⟨adjacent_concat_iff.mpr (Or.inr ⟨ends, rfl⟩), linked.link_last ends⟩
    · obtain ⟨adjacent, notStored⟩ := linked.pending_adjacent other left right before
      exact ⟨adjacent_concat_iff.mpr (Or.inl adjacent), notStored⟩
  · intro left right adjacent
    rcases adjacent_concat_iff.mp adjacent with inside | ⟨isLast, rfl⟩
    · rcases linked.covered left right inside with stored | ⟨other, late⟩
      · exact Or.inl stored
      · have different : other ≠ producer := by
          rintro rfl
          rw [ready] at late
          contradiction
        exact Or.inr ⟨other, (Function.update_of_ne different _ _).trans late⟩
    · rw [ends] at isLast
      cases isLast
      exact Or.inr ⟨producer, Function.update_self _ _ _⟩
  · intro first second left right other firstLate secondLate
    rcases old firstLate with ⟨rfl, rfl, _⟩ | firstBefore
    · rcases old secondLate with ⟨rfl, _, _⟩ | secondBefore
      · rfl
      · exact absurd secondBefore untouched
    · rcases old secondLate with ⟨_, rfl, _⟩ | secondBefore
      · exact absurd firstBefore untouched
      · exact linked.single first second left right other firstBefore secondBefore

/-- A late producer stores its link. -/
theorem store [DecidableEq N] (linked : Linked order link pending) {producer : P}
    {left right : N} (late : pending producer = some (left, right)) :
    Linked order (Function.update link left (some right))
      (Function.update pending producer none) := by
  obtain ⟨gap, _⟩ := linked.pending_adjacent producer left right late
  have before : ∀ {other first second},
      Function.update pending producer none other = some (first, second) →
      other ≠ producer ∧ pending other = some (first, second) := by
    intro other first second stillLate
    rcases update_eq_some_iff.mp stillLate with ⟨_, gone⟩ | wasLate
    · contradiction
    · exact wasLate
  constructor
  · exact linked.nodup
  · intro first member second stored
    rcases update_eq_some_iff.mp stored with ⟨rfl, new⟩ | ⟨_, before⟩
    · cases new
      exact gap
    · exact linked.link_adjacent first member second before
  · intro other first second stillLate
    obtain ⟨different, wasLate⟩ := before stillLate
    obtain ⟨adjacent, notStored⟩ := linked.pending_adjacent other first second wasLate
    have elsewhere : first ≠ left := by
      rintro rfl
      exact different (linked.single other producer first second right wasLate late)
    exact ⟨adjacent, (Function.update_of_ne elsewhere _ _).trans notStored⟩
  · intro first second adjacent
    by_cases same : first = left
    · rw [same] at adjacent ⊢
      rw [Function.update_self, gap.unique linked.nodup adjacent]
      exact Or.inl rfl
    · rw [Function.update_of_ne same]
      rcases linked.covered first second adjacent with stored | ⟨other, wasLate⟩
      · exact Or.inl stored
      · have different : other ≠ producer := by
          rintro rfl
          rw [late] at wasLate
          cases wasLate
          exact same rfl
        exact Or.inr ⟨other, (Function.update_of_ne different _ _).trans wasLate⟩
  · intro first second prev next other firstLate secondLate
    exact linked.single first second prev next other (before firstLate).2 (before secondLate).2

end Linked

/-- The front can be removed once its link is stored. -/
theorem Linked.pop {order : List N} {link : N → Option N} {pending : P → Option (N × N)}
    {front next : N} (linked : Linked (front :: order) link pending)
    (stored : link front = some next) :
    order.head? = some next ∧ Linked order link pending := by
  rcases List.nodup_cons.mp linked.nodup with ⟨new, nodup⟩
  have behind : ∀ {left right}, left ≠ front → Adjacent (front :: order) left right →
      Adjacent order left right := by
    intro left right different adjacent
    rcases adjacent_cons_iff.mp adjacent with ⟨same, _⟩ | inside
    · exact absurd same different
    · exact inside
  refine ⟨?_, ⟨nodup, ?_, ?_, ?_, linked.single⟩⟩
  · have adjacent := linked.link_adjacent front List.mem_cons_self next stored
    rcases adjacent_cons_iff.mp adjacent with ⟨_, first⟩ | inside
    · exact first
    · exact absurd inside.left_mem new
  · intro left member right leads
    refine behind ?_ (linked.link_adjacent left (List.mem_cons_of_mem _ member) right leads)
    rintro rfl
    exact new member
  · intro producer left right late
    obtain ⟨adjacent, unlinked⟩ := linked.pending_adjacent producer left right late
    refine ⟨behind ?_ adjacent, unlinked⟩
    rintro rfl
    rw [unlinked] at stored
    contradiction
  · intro left right adjacent
    exact linked.covered left right (adjacent_cons_iff.mpr (Or.inr adjacent))

/-- Where the front has no link, it is the only node or the link behind it is late. -/
theorem Linked.front_unlinked {order : List N} {link : N → Option N}
    {pending : P → Option (N × N)} {front : N} (linked : Linked (front :: order) link pending)
    (unlinked : link front = none) :
    order = [] ∨ ∃ next rest producer, order = next :: rest ∧
      pending producer = some (front, next) := by
  cases order with
  | nil => exact Or.inl rfl
  | cons next rest =>
      right
      rcases linked.covered front next (adjacent_cons_iff.mpr (Or.inl ⟨rfl, rfl⟩)) with
        stored | ⟨producer, late⟩
      · rw [unlinked] at stored
        contradiction
      · exact ⟨next, rest, producer, rfl, late⟩

end Cncpp.Queue

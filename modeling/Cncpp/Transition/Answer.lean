import Mathlib.Data.List.Basic

/-!
# Calls that answer

An object whose methods always return is a function from its state and a call to an
answer and the next state.  This module supplies finite runs of calls with all their
answers and the simulation rule for them.  The relation of the rule also sees the calls
that are still to come, so that it can state what the rest of the run needs.
-/

namespace Cncpp.Transition

universe u v w x

/-- A total method table: every call is answered. -/
abbrev Method (σ : Type u) (Call : Type v) (Reply : Type w) := σ → Call → Reply × σ

variable {σ : Type u} {Call : Type v} {Reply : Type w} {τ : Type x}

/-- Make a list of calls from left to right and collect the answers. -/
def answers (method : Method σ Call Reply) : σ → List Call → List Reply × σ
  | state, [] => ([], state)
  | state, call :: calls =>
      let first := method state call
      let rest := answers method first.2 calls
      (first.1 :: rest.1, rest.2)

/-- Two objects whose related states answer every call alike, and stay related for the
calls after it, give the same answers to a whole run. -/
theorem answers_simulation {method : Method σ Call Reply} {spec : Method τ Call Reply}
    {Related : σ → τ → List Call → Prop}
    (simulates : ∀ ⦃state other call calls⦄, Related state other (call :: calls) →
      (method state call).1 = (spec other call).1 ∧
        Related (method state call).2 (spec other call).2 calls)
    {state : σ} {other : τ} {calls : List Call} (start : Related state other calls) :
    (answers method state calls).1 = (answers spec other calls).1 ∧
      Related (answers method state calls).2 (answers spec other calls).2 [] := by
  induction calls generalizing state other with
  | nil => exact ⟨rfl, start⟩
  | cons call calls ih =>
      obtain ⟨sameAnswer, related⟩ := simulates start
      obtain ⟨sameRest, final⟩ := ih related
      refine ⟨?_, final⟩
      simp only [answers]
      rw [sameAnswer, sameRest]

/-- A call that is answered alike in every state has that answer wherever it stands. -/
theorem answers_getElem?_of_constant {method : Method σ Call Reply} {call : Call}
    {reply : Reply} (constant : ∀ state, (method state call).1 = reply) (state : σ)
    {calls : List Call} {index : Nat} (made : calls[index]? = some call) :
    (answers method state calls).1[index]? = some reply := by
  induction calls generalizing state index with
  | nil => simp at made
  | cons first calls ih =>
      simp only [answers]
      cases index with
      | zero =>
          rw [List.getElem?_cons_zero, Option.some.injEq] at made
          rw [List.getElem?_cons_zero, made, constant]
      | succ index =>
          rw [List.getElem?_cons_succ] at made ⊢
          exact ih _ made

/-- A call that leads through a sequence of states is answered in one after the other. -/
theorem answers_replicate {method : Method σ Call Reply} {call : Call} {states : Nat → σ}
    {replies : Nat → Reply} (leads : ∀ i, method (states i) call = (replies i, states (i + 1)))
    (first count : Nat) :
    answers method (states first) (List.replicate count call) =
      ((List.range' first count).map replies, states (first + count)) := by
  induction count generalizing first with
  | zero => rfl
  | succ count ih =>
      rw [List.replicate_succ, answers, leads, ih, List.range'_succ, List.map_cons,
        Nat.add_right_comm, Nat.add_assoc]

/-! ## What a run leaves in the state -/

/-- A field that some calls overwrite holds what the last of them stored. -/
theorem answers_overwritten {α : Type x} {method : Method σ Call Reply} (field : σ → α)
    {stored : Call → Option α}
    (overwrites : ∀ state call, field (method state call).2 = (stored call).getD (field state))
    (state : σ) (calls : List Call) :
    field (answers method state calls).2 =
      (calls.filterMap stored).getLast?.getD (field state) := by
  induction calls generalizing state with
  | nil => rfl
  | cons call calls ih =>
      simp only [answers]
      rw [ih, overwrites]
      cases kept : stored call with
      | none => rw [List.filterMap_cons_none kept, Option.getD_none]
      | some value =>
          rw [List.filterMap_cons_some kept, List.getLast?_cons, Option.getD_some,
            Option.getD_some]

/-- A list that calls only add to holds what they added, in order. -/
theorem answers_appended {α : Type x} {method : Method σ Call Reply} (field : σ → List α)
    {added : Call → List α}
    (appends : ∀ state call, field (method state call).2 = field state ++ added call)
    (state : σ) (calls : List Call) :
    field (answers method state calls).2 = field state ++ calls.flatMap added := by
  induction calls generalizing state with
  | nil => exact (List.append_nil (field state)).symm
  | cons call calls ih =>
      simp only [answers]
      rw [ih, appends, List.flatMap_cons, List.append_assoc]

end Cncpp.Transition

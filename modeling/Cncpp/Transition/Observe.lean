import Cncpp.Transition.Run

/-!
# Keeping a record of a run

A record that is written beside the state of a component, and that the component never
reads, does not change its runs.
-/

namespace Cncpp.Transition

universe u v w

variable {σ : Type u} {Act : Type v} {η : Type w}

/-- The step with a record beside the state.  What is written depends on the state before
the step and on the action. -/
def observe (step : Step σ Act) (write : σ → η → Act → η) : Step (σ × η) Act
  | (state, record), act => (step state act).map fun next => (next, write state record act)

variable {step : Step σ Act} {write : σ → η → Act → η}

theorem observe_eq_some_iff {before after : σ × η} {act : Act} :
    observe step write before act = some after ↔
      step before.1 act = some after.1 ∧ write before.1 before.2 act = after.2 := by
  rcases before with ⟨state, record⟩
  rcases after with ⟨next, written⟩
  rw [observe, Option.map_eq_some_iff]
  constructor
  · rintro ⟨_, first, rfl, rfl⟩
    exact ⟨first, rfl⟩
  · rintro ⟨first, rfl⟩
    exact ⟨next, first, rfl⟩

/-- Every run has a record. -/
theorem exists_exec_observe {state final : σ} {acts : List Act}
    (run : exec step state acts = some final) (record : η) :
    ∃ written, exec (observe step write) (state, record) acts = some (final, written) := by
  induction acts generalizing state record with
  | nil =>
      cases run
      exact ⟨record, rfl⟩
  | cons act acts ih =>
      obtain ⟨next, first, rest⟩ := (exec_cons_eq_some_iff step state final act acts).mp run
      obtain ⟨written, later⟩ := ih rest (write state record act)
      refine ⟨written, (exec_cons_eq_some_iff _ _ _ _ _).mpr ⟨_, ?_, later⟩⟩
      exact observe_eq_some_iff.mpr ⟨first, rfl⟩

/-- A condition that does not read the record holds along the same runs. -/
theorem along_observe {Ok : σ → Act → Prop} {state : σ} {record : η} {acts : List Act} :
    Along (observe step write) (fun observed act => Ok observed.1 act) (state, record) acts ↔
      Along step Ok state acts := by
  induction acts generalizing state record with
  | nil => exact Iff.rfl
  | cons act acts ih =>
      refine and_congr Iff.rfl ?_
      constructor
      · intro later next first
        exact ih.mp (later (next, write state record act)
          (observe_eq_some_iff.mpr ⟨first, rfl⟩))
      · rintro later ⟨next, written⟩ first
        exact ih.mpr (later next (observe_eq_some_iff.mp first).1)

end Cncpp.Transition

import Mathlib.Logic.Basic
import Mathlib.Logic.Function.Basic

/-!
# Runs of labelled partial transitions

A component that is driven from outside is described by one function from a
state and an action to the next state.  The function is partial: it yields
`none` where the action is not available in that state, or does not return.
This module supplies finite runs of such functions, the rule that lifts a
preserved invariant to whole runs, and two ways of speaking about every point
of a run: `Along`, about the actions taken, and `Throughout`, about the states
passed through.  Where every thread has a value that is there or not, a step of one
thread changes the entry of that thread.
-/

namespace Cncpp.Transition

universe u v

/-- A transition labelled by actions, undefined where the action cannot be
completed. -/
abbrev Step (σ : Type u) (Act : Type v) := σ → Act → Option σ

variable {σ : Type u} {Act : Type v}

/-- Perform a list of actions from left to right.  A failed action fails the
whole run. -/
def exec (step : Step σ Act) : σ → List Act → Option σ
  | state, [] => some state
  | state, act :: acts => (step state act).bind fun next => exec step next acts

theorem exec_cons_eq_some_iff (step : Step σ Act) (state final : σ) (act : Act)
    (acts : List Act) :
    exec step state (act :: acts) = some final ↔
      ∃ next, step state act = some next ∧ exec step next acts = some final := by
  simp only [exec]
  exact Option.bind_eq_some_iff

theorem exec_append (step : Step σ Act) (state : σ) (first second : List Act) :
    exec step state (first ++ second) =
      (exec step state first).bind fun next => exec step next second := by
  induction first generalizing state with
  | nil => rfl
  | cons act acts ih =>
      rw [List.cons_append, exec, exec, Option.bind_assoc]
      exact congrArg _ (funext fun next => ih next)

/-- What every successful action preserves holds at the end of every run. -/
theorem invariant_exec {step : Step σ Act} {Inv : σ → Prop}
    (preserved : ∀ ⦃state act next⦄, Inv state → step state act = some next → Inv next)
    {state final : σ} {acts : List Act} (start : Inv state)
    (run : exec step state acts = some final) : Inv final := by
  induction acts generalizing state with
  | nil =>
      cases run
      exact start
  | cons act acts ih =>
      obtain ⟨next, first, rest⟩ := (exec_cons_eq_some_iff step state final act acts).mp run
      exact ih (preserved start first) rest

/-- An entry that is there after a step of one thread is the new one of that thread, or was
there before. -/
theorem update_eq_some_iff {Thread : Type u} {α : Type v} [DecidableEq Thread]
    {entries : Thread → Option α} {thread other : Thread} {entry : Option α} {value : α} :
    Function.update entries thread entry other = some value ↔
      (other = thread ∧ entry = some value) ∨ (other ≠ thread ∧ entries other = some value) := by
  by_cases same : other = thread
  · simp [same]
  · simp [same, Function.update_of_ne]

/-! ## Conditions on the actions of a run -/

/-- Every action of the run satisfies `Ok` in the state in which it is taken. -/
def Along (step : Step σ Act) (Ok : σ → Act → Prop) : σ → List Act → Prop
  | _, [] => True
  | state, act :: acts =>
      Ok state act ∧ ∀ next, step state act = some next → Along step Ok next acts

@[simp]
theorem along_nil (step : Step σ Act) (Ok : σ → Act → Prop) (state : σ) :
    Along step Ok state [] :=
  trivial

theorem along_cons_iff {step : Step σ Act} {Ok : σ → Act → Prop} {state next : σ}
    {act : Act} (first : step state act = some next) (acts : List Act) :
    Along step Ok state (act :: acts) ↔ Ok state act ∧ Along step Ok next acts := by
  simp [Along, first]

/-- A condition on the actions alone. -/
theorem along_of_forall {step : Step σ Act} {Ok : Act → Prop} {state : σ} {acts : List Act}
    (all : ∀ act ∈ acts, Ok act) : Along step (fun _ act => Ok act) state acts := by
  induction acts generalizing state with
  | nil => trivial
  | cons act acts ih =>
      exact ⟨all act List.mem_cons_self,
        fun _ _ => ih fun other member => all other (List.mem_cons_of_mem _ member)⟩

/-- A weaker condition holds along the same runs. -/
theorem Along.mono {step : Step σ Act} {Strong Weak : σ → Act → Prop}
    (weaken : ∀ state act, Strong state act → Weak state act) {state : σ} {acts : List Act}
    (strong : Along step Strong state acts) : Along step Weak state acts := by
  induction acts generalizing state with
  | nil => trivial
  | cons act acts ih =>
      exact ⟨weaken state act strong.1, fun next first => ih (strong.2 next first)⟩

/-- Two conditions along a run are one. -/
theorem Along.and {step : Step σ Act} {First Second : σ → Act → Prop} {state : σ}
    {acts : List Act} (first : Along step First state acts)
    (second : Along step Second state acts) :
    Along step (fun state act => First state act ∧ Second state act) state acts := by
  induction acts generalizing state with
  | nil => trivial
  | cons act acts ih =>
      exact ⟨⟨first.1, second.1⟩, fun next taken => ih (first.2 next taken) (second.2 next taken)⟩

/-- An invariant that is preserved by the actions satisfying `Ok` holds at the
end of every run of such actions. -/
theorem invariant_along {step : Step σ Act} {Ok : σ → Act → Prop} {Inv : σ → Prop}
    (preserved : ∀ ⦃state act next⦄, Inv state → Ok state act →
      step state act = some next → Inv next)
    {state final : σ} {acts : List Act} (start : Inv state)
    (allowed : Along step Ok state acts) (run : exec step state acts = some final) :
    Inv final := by
  induction acts generalizing state with
  | nil =>
      cases run
      exact start
  | cons act acts ih =>
      obtain ⟨next, first, rest⟩ := (exec_cons_eq_some_iff step state final act acts).mp run
      obtain ⟨ok, later⟩ := (along_cons_iff first acts).mp allowed
      exact ih (preserved start ok first) later rest

/-- If every allowed action returns and restores the invariant, then every run
of allowed actions returns and ends in the invariant. -/
theorem exec_total {step : Step σ Act} {Ok : σ → Act → Prop} {Inv : σ → Prop}
    (progress : ∀ ⦃state act⦄, Inv state → Ok state act →
      ∃ next, step state act = some next ∧ Inv next)
    {state : σ} {acts : List Act} (start : Inv state)
    (allowed : Along step Ok state acts) :
    ∃ final, exec step state acts = some final ∧ Inv final := by
  induction acts generalizing state with
  | nil => exact ⟨state, rfl, start⟩
  | cons act acts ih =>
      obtain ⟨next, first, restored⟩ := progress start allowed.1
      obtain ⟨final, rest, holds⟩ := ih restored (allowed.2 next first)
      exact ⟨final, (exec_cons_eq_some_iff step state final act acts).mpr
        ⟨next, first, rest⟩, holds⟩

/-! ## Properties of the states of a run -/

/-- `P` holds in every state the run passes through, the first included. -/
def Throughout (step : Step σ Act) (P : σ → Prop) : σ → List Act → Prop
  | state, [] => P state
  | state, act :: acts =>
      P state ∧ ∀ next, step state act = some next → Throughout step P next acts

theorem throughout_cons_iff {step : Step σ Act} {P : σ → Prop} {state next : σ}
    {act : Act} (first : step state act = some next) (acts : List Act) :
    Throughout step P state (act :: acts) ↔ P state ∧ Throughout step P next acts := by
  simp [Throughout, first]

theorem Throughout.head {step : Step σ Act} {P : σ → Prop} {state : σ}
    {acts : List Act} (all : Throughout step P state acts) : P state := by
  cases acts with
  | nil => exact all
  | cons act acts => exact all.1

/-- What the states of a successful run say about the actions taken in them. -/
theorem along_of_throughout {step : Step σ Act} {Ok : σ → Act → Prop} {P Inv : σ → Prop}
    (allows : ∀ ⦃state act next⦄, Inv state → P state → step state act = some next →
      Inv next ∧ Ok state act)
    {state final : σ} {acts : List Act} (inv : Inv state)
    (all : Throughout step P state acts) (run : exec step state acts = some final) :
    Along step Ok state acts := by
  induction acts generalizing state with
  | nil => trivial
  | cons act acts ih =>
      obtain ⟨next, first, rest⟩ := (exec_cons_eq_some_iff step state final act acts).mp run
      obtain ⟨nextInv, ok⟩ := allows inv all.head first
      exact (along_cons_iff first acts).mpr ⟨ok, ih nextInv (all.2 next first) rest⟩

/-- Where `Ok` is exactly the condition under which one action keeps `P`, a
successful run keeps `P` throughout exactly when all its actions satisfy `Ok`.
The side invariant `Inv` needs no condition. -/
theorem throughout_iff_along {step : Step σ Act} {Ok : σ → Act → Prop}
    {P Inv : σ → Prop}
    (exact_step : ∀ ⦃state act next⦄, Inv state → P state →
      step state act = some next → Inv next ∧ (P next ↔ Ok state act))
    {state final : σ} {acts : List Act} (inv : Inv state) (start : P state)
    (run : exec step state acts = some final) :
    Throughout step P state acts ↔ Along step Ok state acts := by
  induction acts generalizing state with
  | nil => simp [Throughout, start]
  | cons act acts ih =>
      obtain ⟨next, first, rest⟩ := (exec_cons_eq_some_iff step state final act acts).mp run
      obtain ⟨nextInv, nextIff⟩ := exact_step inv start first
      rw [throughout_cons_iff first, along_cons_iff first]
      constructor
      · rintro ⟨_, later⟩
        exact ⟨nextIff.mp later.head, (ih nextInv later.head rest).mp later⟩
      · rintro ⟨ok, later⟩
        exact ⟨start, (ih nextInv (nextIff.mpr ok) rest).mpr later⟩

/-- Where one action restores or destroys `P` exactly according to `Ok` and a lost
`P` stays lost, the end of a run tells whether every action satisfied `Ok`. -/
theorem last_iff_along {step : Step σ Act} {Ok : σ → Act → Prop} {P Inv : σ → Prop}
    (exact_step : ∀ ⦃state act next⦄, Inv state → step state act = some next →
      Inv next ∧ (P next ↔ P state ∧ Ok state act))
    {state final : σ} {acts : List Act} (inv : Inv state)
    (run : exec step state acts = some final) :
    P final ↔ P state ∧ Along step Ok state acts := by
  induction acts generalizing state with
  | nil =>
      cases run
      simp
  | cons act acts ih =>
      obtain ⟨next, first, rest⟩ := (exec_cons_eq_some_iff step state final act acts).mp run
      obtain ⟨nextInv, nextIff⟩ := exact_step inv first
      rw [ih nextInv rest, nextIff, along_cons_iff first, and_assoc]

end Cncpp.Transition

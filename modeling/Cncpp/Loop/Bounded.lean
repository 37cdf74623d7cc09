import Mathlib.Logic.Basic
import Mathlib.Logic.Function.Iterate

/-!
# Bounded execution of loops

A `while` loop is a body that either asks for another pass with a new state or
leaves the loop with a result.  `run` executes a body for at most the given
number of passes; `none` means that the bound was reached first.  The rule
`run_total` is the usual total-correctness rule: an invariant together with a
variant that every further pass decreases.
-/

namespace Cncpp.Loop

universe u v w x

/-- What one pass through the body of a loop decides. -/
inductive Pass (σ : Type u) (ρ : Type v) where
  | again (state : σ)
  | leave (result : ρ)

namespace Pass

variable {σ : Type u} {ρ : Type v}

/-- The specification of one pass: `Again` for the state of a further pass,
`Leave` for the result. -/
def Meets (Again : σ → Prop) (Leave : ρ → Prop) : Pass σ ρ → Prop
  | again state => Again state
  | leave result => Leave result

@[simp]
theorem meets_again (Again : σ → Prop) (Leave : ρ → Prop) (state : σ) :
    (again state : Pass σ ρ).Meets Again Leave ↔ Again state :=
  Iff.rfl

@[simp]
theorem meets_leave (Again : σ → Prop) (Leave : ρ → Prop) (result : ρ) :
    (leave result : Pass σ ρ).Meets Again Leave ↔ Leave result :=
  Iff.rfl

/-- Two specifications of one pass. -/
theorem Meets.and {First Second : σ → Prop} {Left Right : ρ → Prop} {pass : Pass σ ρ}
    (first : pass.Meets First Left) (second : pass.Meets Second Right) :
    pass.Meets (fun next => First next ∧ Second next)
      (fun result => Left result ∧ Right result) := by
  cases pass with
  | again state => exact ⟨first, second⟩
  | leave result => exact ⟨first, second⟩

/-- A weaker specification of one pass. -/
theorem Meets.mono {First Second : σ → Prop} {Left Right : ρ → Prop} {pass : Pass σ ρ}
    (meets : pass.Meets First Left) (again : ∀ next, First next → Second next)
    (leave : ∀ result, Left result → Right result) : pass.Meets Second Right := by
  cases pass with
  | again state => exact again state meets
  | leave result => exact leave result meets

/-- A pass seen through a map of the states and one of the results. -/
def map {τ : Type w} {κ : Type x} (onState : σ → τ) (onResult : ρ → κ) : Pass σ ρ → Pass τ κ
  | again state => again (onState state)
  | leave result => leave (onResult result)

end Pass

variable {σ : Type u} {ρ : Type v}

/-- Execute at most `fuel` passes of the loop. -/
def run (body : σ → Pass σ ρ) : Nat → σ → Option ρ
  | 0, _ => none
  | fuel + 1, state =>
      match body state with
      | .again next => run body fuel next
      | .leave result => some result

/-- A loop whose passes are those of another loop seen through a map has its results, seen
through the map. -/
theorem run_map {τ : Type w} {κ : Type x} {body : σ → Pass σ ρ} {image : τ → Pass τ κ}
    {onState : σ → τ} {onResult : ρ → κ}
    (passes : ∀ state, image (onState state) = (body state).map onState onResult)
    (fuel : Nat) (state : σ) :
    run image fuel (onState state) = (run body fuel state).map onResult := by
  induction fuel generalizing state with
  | zero => rfl
  | succ fuel ih =>
      rw [run, run, passes]
      cases body state with
      | again next => exact ih next
      | leave result => rfl

/-- Total correctness of a loop.  The invariant holds before every pass, the
variant decreases from pass to pass, and leaving establishes `Post`. -/
theorem run_total {body : σ → Pass σ ρ} {Inv : σ → Prop} {Post : ρ → Prop}
    (variant : σ → Nat)
    (progress : ∀ state, Inv state →
      (body state).Meets (fun next => Inv next ∧ variant next < variant state) Post)
    {fuel : Nat} {state : σ} (start : Inv state) (enough : variant state < fuel) :
    ∃ result, run body fuel state = some result ∧ Post result := by
  induction fuel generalizing state with
  | zero => omega
  | succ fuel ih =>
      have pass := progress state start
      cases decision : body state with
      | again next =>
          rw [decision] at pass
          obtain ⟨restored, decreased⟩ := pass
          obtain ⟨result, returned, post⟩ := ih restored (by omega)
          exact ⟨result, by simp only [run, decision, returned], post⟩
      | leave result =>
          rw [decision] at pass
          exact ⟨result, by simp only [run, decision], pass⟩

/-- Partial correctness of a loop: what every pass keeps holds of a result. -/
theorem run_partial {body : σ → Pass σ ρ} {Inv : σ → Prop} {Post : ρ → Prop}
    (keeps : ∀ state, Inv state → (body state).Meets Inv Post) {fuel : Nat} {state : σ}
    {result : ρ} (start : Inv state) (returned : run body fuel state = some result) :
    Post result := by
  induction fuel generalizing state with
  | zero => contradiction
  | succ fuel ih =>
      have pass := keeps state start
      rw [run] at returned
      cases decision : body state with
      | again next =>
          rw [decision] at pass returned
          exact ih pass returned
      | leave left =>
          rw [decision] at pass returned
          cases returned
          exact pass

/-! ## Counted loops -/

/-- One pass of a loop that counts from 0 up to `size`. -/
def countedPass (increment : Nat → Nat) (size : Nat) (body : σ → σ) (state : Nat × σ) :
    Pass (Nat × σ) σ :=
  if state.1 < size then .again (increment state.1, body state.2) else .leave state.2

/-- A loop whose counter reaches `size` executes its body `size` times. -/
theorem run_counted {increment : Nat → Nat} {size : Nat}
    (reaches : ∀ index < size, increment index = index + 1) (body : σ → σ) (state : σ) :
    run (countedPass increment size body) (size + 1) (0, state) = some (body^[size] state) := by
  have fromIndex (rest index : Nat) (state : σ) (total : index + rest = size) :
      run (countedPass increment size body) (rest + 1) (index, state) =
        some (body^[rest] state) := by
    induction rest generalizing index state with
    | zero =>
        have done : ¬index < size := by omega
        simp only [run, countedPass, if_neg done, Function.iterate_zero_apply]
    | succ rest ih =>
        have more : index < size := by omega
        rw [run, countedPass]
        simp only [if_pos more]
        rw [reaches index more, ih (index + 1) (body state) (by omega)]
        rfl
  exact fromIndex size 0 state (Nat.zero_add size)

end Cncpp.Loop

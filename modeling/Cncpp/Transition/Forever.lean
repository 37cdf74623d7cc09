import Cncpp.Transition.Run

/-!
# Infinite runs

An infinite run is a sequence of states and a sequence of actions that fit together.
What the environment promises is stated as a premise about the run: wherever `P` holds,
an action that serves it is taken then or later.  The rule `leadsTo_of_served` turns such
a promise into progress.
-/

namespace Cncpp.Transition

universe u v

variable {σ : Type u} {Act : Type v}

/-- The `n`-th action leads from the `n`-th state to the next one. -/
def Forever (step : Step σ Act) (states : Nat → σ) (acts : Nat → Act) : Prop :=
  ∀ n, step (states n) (acts n) = some (states (n + 1))

/-- The states that a sequence of actions passes through. -/
def follow (step : Step σ Act) (start : σ) (acts : Nat → Act) : Nat → σ
  | 0 => start
  | n + 1 =>
      let state := follow step start acts n
      (step state (acts n)).getD state

theorem follow_succ {step : Step σ Act} {start : σ} {acts : Nat → Act} {n : Nat} {next : σ}
    (stepped : step (follow step start acts n) (acts n) = some next) :
    follow step start acts (n + 1) = next := by
  rw [follow, stepped]
  rfl

/-- Where every action can be taken, the actions make an infinite run. -/
theorem forever_follow {step : Step σ Act} {start : σ} {acts : Nat → Act}
    (enabled : ∀ n, (step (follow step start acts n) (acts n)).isSome) :
    Forever step (follow step start acts) acts := by
  intro n
  obtain ⟨next, stepped⟩ := Option.isSome_iff_exists.mp (enabled n)
  rw [follow_succ stepped, stepped]

/-- After `begun` actions there is nothing left to do, and all later actions leave it so. -/
structure Settles (step : Step σ Act) (start : σ) (acts : Nat → Act) (begun : Nat)
    (Quiet : σ → Prop) : Prop where
  enabled : ∀ n < begun, (step (follow step start acts n) (acts n)).isSome
  quiet : Quiet (follow step start acts begun)
  goesOn : ∀ n state, Quiet state → ∃ next, step state (acts (n + begun)) = some next ∧ Quiet next

theorem Settles.stays {step : Step σ Act} {start : σ} {acts : Nat → Act} {begun : Nat}
    {Quiet : σ → Prop} (settles : Settles step start acts begun Quiet) (n : Nat) :
    Quiet (follow step start acts (n + begun)) := by
  induction n with
  | zero => exact (Nat.zero_add begun).symm ▸ settles.quiet
  | succ n ih =>
      obtain ⟨next, stepped, quiet⟩ := settles.goesOn n _ ih
      rwa [Nat.succ_add, follow_succ stepped]

theorem Settles.forever {step : Step σ Act} {start : σ} {acts : Nat → Act} {begun : Nat}
    {Quiet : σ → Prop} (settles : Settles step start acts begun Quiet) :
    Forever step (follow step start acts) acts := by
  refine forever_follow fun n => ?_
  rcases Nat.lt_or_ge n begun with early | late
  · exact settles.enabled n early
  · obtain ⟨n, rfl⟩ := Nat.exists_eq_add_of_le' late
    obtain ⟨next, stepped, _⟩ := settles.goesOn n _ (settles.stays n)
    exact Option.isSome_iff_exists.mpr ⟨next, stepped⟩

/-- What every action preserves goes on to hold in an infinite run. -/
theorem Forever.persists {step : Step σ Act} {states : Nat → σ} {acts : Nat → Act}
    {P : σ → Prop} (run : Forever step states acts)
    (preserved : ∀ ⦃state act next⦄, P state → step state act = some next → P next)
    {n later : Nat} (holds : P (states n)) (after : n ≤ later) : P (states later) := by
  induction after with
  | refl => exact holds
  | step _ ih => exact preserved ih (run _)

/-- A list to which every action only appends is a prefix of what it becomes. -/
theorem Forever.grows {α : Type u} {step : Step σ Act} {states : Nat → σ} {acts : Nat → Act}
    {history : σ → List α} (run : Forever step states acts)
    (appends : ∀ ⦃state act next⦄, step state act = some next → history state <+: history next)
    {n later : Nat} (after : n ≤ later) : history (states n) <+: history (states later) := by
  induction after with
  | refl => exact List.prefix_refl _
  | step _ ih => exact ih.trans (appends (run _))

/-- What every action preserves holds in all states of an infinite run. -/
theorem Forever.invariant {step : Step σ Act} {states : Nat → σ} {acts : Nat → Act}
    {Inv : σ → Prop} (run : Forever step states acts)
    (preserved : ∀ ⦃state act next⦄, Inv state → step state act = some next → Inv next)
    (start : Inv (states 0)) (n : Nat) : Inv (states n) :=
  run.persists preserved start (Nat.zero_le n)

/-- Wherever `P` holds, an action that satisfies `Serves` is taken then or later. -/
def Served (states : Nat → σ) (acts : Nat → Act) (P : σ → Prop) (Serves : Act → Prop) : Prop :=
  ∀ n, P (states n) → ∃ later, n ≤ later ∧ Serves (acts later)

/-- Where nothing is left to do, nothing is left to serve: the last action that serves `P` is
enough. -/
theorem Settles.served {step : Step σ Act} {start : σ} {acts : Nat → Act} {begun : Nat}
    {Quiet P : σ → Prop} {Serves : Act → Prop} (settles : Settles step start acts begun Quiet)
    (last : Nat) (serves : Serves (acts last))
    (early : ∀ n < begun, last < n → ¬P (follow step start acts n))
    (late : ∀ state, Quiet state → ¬P state) : Served (follow step start acts) acts P Serves := by
  intro n holds
  by_cases before : n ≤ last
  · exact ⟨last, before, serves⟩
  · rcases Nat.lt_or_ge n begun with inside | beyond
    · exact absurd holds (early n inside (Nat.lt_of_not_le before))
    · obtain ⟨n, rfl⟩ := Nat.exists_eq_add_of_le' beyond
      exact absurd holds (late _ (settles.stays n))

/-- Wherever `P` holds, `Q` holds then or later. -/
def LeadsTo (states : Nat → σ) (P Q : σ → Prop) : Prop :=
  ∀ n, P (states n) → ∃ later, n ≤ later ∧ Q (states later)

namespace LeadsTo

variable {states : Nat → σ} {P Q R : σ → Prop}

theorem of_imp (implies : ∀ state, P state → Q state) : LeadsTo states P Q :=
  fun n holds => ⟨n, Nat.le_refl n, implies _ holds⟩

theorem trans (first : LeadsTo states P Q) (second : LeadsTo states Q R) :
    LeadsTo states P R := by
  intro n holds
  obtain ⟨middle, before, reached⟩ := first n holds
  obtain ⟨later, after, last⟩ := second middle reached
  exact ⟨later, Nat.le_trans before after, last⟩

theorem or (left : LeadsTo states P R) (right : LeadsTo states Q R) :
    LeadsTo states (fun state => P state ∨ Q state) R := by
  intro n holds
  rcases holds with holds | holds
  · exact left n holds
  · exact right n holds

/-- Where a number decreases until `Q` holds, `Q` holds in the end. -/
theorem of_measure (measure : σ → Nat)
    (decreases : ∀ size, LeadsTo states (fun state => P state ∧ measure state = size)
      (fun state => Q state ∨ P state ∧ measure state < size)) : LeadsTo states P Q := by
  suffices below : ∀ bound n, P (states n) → measure (states n) < bound →
      ∃ later, n ≤ later ∧ Q (states later) from
    fun n holds => below _ n holds (Nat.lt_succ_self _)
  intro bound
  induction bound with
  | zero => exact fun _ _ below => absurd below (Nat.not_lt_zero _)
  | succ bound ih =>
      intro n holds small
      obtain ⟨later, after, reached | ⟨still, less⟩⟩ := decreases _ n ⟨holds, rfl⟩
      · exact ⟨later, after, reached⟩
      · obtain ⟨last, beyond, reached⟩ := ih later still (by omega)
        exact ⟨last, Nat.le_trans after beyond, reached⟩

end LeadsTo

/-- Where one count advances as long as it is behind another one that never decreases, it
reaches whatever the other has reached. -/
theorem catches_up {step : Step σ Act} {states : Nat → σ} {acts : Nat → Act} {Inv : σ → Prop}
    {given taken : σ → Nat} (run : Forever step states acts)
    (preserved : ∀ ⦃state act next⦄, Inv state → step state act = some next → Inv next)
    (grows : ∀ ⦃state act next⦄, step state act = some next → given state ≤ given next)
    (advances : ∀ count, LeadsTo states
      (fun state => Inv state ∧ taken state = count ∧ count < given state)
      (fun state => count < taken state)) (count : Nat) :
    LeadsTo states (fun state => Inv state ∧ count ≤ given state)
      (fun state => count ≤ taken state) := by
  have stays ⦃state act next⦄ (holds : Inv state ∧ count ≤ given state)
      (stepped : step state act = some next) : Inv next ∧ count ≤ given next :=
    ⟨preserved holds.1 stepped, Nat.le_trans holds.2 (grows stepped)⟩
  refine LeadsTo.of_measure (fun state => count - taken state) fun size => ?_
  rintro n ⟨holds, rfl⟩
  by_cases done : count ≤ taken (states n)
  · exact ⟨n, Nat.le_refl n, Or.inl done⟩
  · obtain ⟨later, after, further⟩ := advances _ n ⟨holds.1, rfl, by omega⟩
    exact ⟨later, after, Or.inr ⟨run.persists stays holds after, by omega⟩⟩

/-- `P` persists until the first action that serves it, and that action is taken where `P`
holds. -/
theorem serving_action {step : Step σ Act} {states : Nat → σ} {acts : Nat → Act}
    {P : σ → Prop} {Serves : Act → Prop} (run : Forever step states acts)
    (served : Served states acts P Serves)
    (persists : ∀ ⦃state act next⦄, P state → ¬ Serves act →
      step state act = some next → P next) {n : Nat} (holds : P (states n)) :
    ∃ later, n ≤ later ∧ Serves (acts later) ∧ P (states later) := by
  obtain ⟨last, after, serves⟩ := served n holds
  obtain ⟨distance, rfl⟩ := Nat.exists_eq_add_of_le after
  clear after
  induction distance generalizing n with
  | zero => exact ⟨n, Nat.le_refl n, serves, holds⟩
  | succ distance ih =>
      by_cases now : Serves (acts n)
      · exact ⟨n, Nat.le_refl n, now, holds⟩
      · have next := persists holds now (run n)
        rw [Nat.add_comm distance, ← Nat.add_assoc] at serves
        obtain ⟨later, after, serving, still⟩ := ih next serves
        exact ⟨later, Nat.le_of_succ_le after, serving, still⟩

/-- If every action keeps `P` or establishes `Q`, then `P` still holds later, or `Q` has held
before. -/
theorem Forever.keeps_or_reaches {step : Step σ Act} {states : Nat → σ} {acts : Nat → Act}
    {P Q : σ → Prop} (run : Forever step states acts)
    (persists : ∀ ⦃state act next⦄, P state → step state act = some next → P next ∨ Q next)
    {n later : Nat} (holds : P (states n)) (after : n ≤ later) :
    P (states later) ∨ ∃ middle, n ≤ middle ∧ Q (states middle) := by
  induction after with
  | refl => exact Or.inl holds
  | @step later after ih =>
      rcases ih with still | reached
      · rcases persists still (run later) with next | reached
        · exact Or.inl next
        · exact Or.inr ⟨later + 1, Nat.le_succ_of_le after, reached⟩
      · exact Or.inr reached

/-- If `P` persists until it is served, and serving it establishes `Q`, then `P` leads
to `Q`. -/
theorem leadsTo_of_served {step : Step σ Act} {states : Nat → σ} {acts : Nat → Act}
    {P Q : σ → Prop} {Serves : Act → Prop} (run : Forever step states acts)
    (served : Served states acts P Serves)
    (persists : ∀ ⦃state act next⦄, P state → ¬ Serves act →
      step state act = some next → P next)
    (serves : ∀ ⦃state act next⦄, P state → Serves act →
      step state act = some next → Q next) : LeadsTo states P Q := by
  intro n holds
  obtain ⟨later, after, serving, still⟩ := serving_action run served persists holds
  exact ⟨later + 1, Nat.le_succ_of_le after, serves still serving (run later)⟩

/-- If every action keeps `P` or establishes `Q`, and one that serves `P` establishes `Q`,
then a state with `P` and a serving action after it lead to `Q`. -/
theorem reaches_of_serving {step : Step σ Act} {states : Nat → σ} {acts : Nat → Act}
    {P Q : σ → Prop} {Serves : Act → Prop} (run : Forever step states acts)
    (persists : ∀ ⦃state act next⦄, P state → step state act = some next → P next ∨ Q next)
    (serves : ∀ ⦃state act next⦄, P state → Serves act →
      step state act = some next → Q next) {n last : Nat} (holds : P (states n))
    (after : n ≤ last) (serving : Serves (acts last)) :
    ∃ later, n ≤ later ∧ Q (states later) := by
  obtain ⟨distance, rfl⟩ := Nat.exists_eq_add_of_le after
  clear after
  induction distance generalizing n with
  | zero => exact ⟨n + 1, Nat.le_succ n, serves holds serving (run n)⟩
  | succ distance ih =>
      rcases persists holds (run n) with still | reached
      · rw [Nat.add_comm distance, ← Nat.add_assoc] at serving
        obtain ⟨later, after, done⟩ := ih still serving
        exact ⟨later, Nat.le_of_succ_le after, done⟩
      · exact ⟨n + 1, Nat.le_succ n, reached⟩

/-- If every action keeps `P` or establishes `Q`, and one that serves `P` establishes `Q`,
then `P` leads to `Q`. -/
theorem leadsTo_of_served_or {step : Step σ Act} {states : Nat → σ} {acts : Nat → Act}
    {P Q : σ → Prop} {Serves : Act → Prop} (run : Forever step states acts)
    (served : Served states acts P Serves)
    (persists : ∀ ⦃state act next⦄, P state → step state act = some next → P next ∨ Q next)
    (serves : ∀ ⦃state act next⦄, P state → Serves act →
      step state act = some next → Q next) : LeadsTo states P Q := by
  intro n holds
  obtain ⟨last, after, serving⟩ := served n holds
  exact reaches_of_serving run persists serves holds after serving

/-- If no action increases a number while `P` holds, and one that serves `P` decreases it,
then `P` ends, and it ends with `Q`. -/
theorem leadsTo_of_decreasing {step : Step σ Act} {states : Nat → σ} {acts : Nat → Act}
    {P Q : σ → Prop} {Serves : Act → Prop} (run : Forever step states acts) (measure : σ → Nat)
    (served : Served states acts P Serves)
    (keeps : ∀ ⦃state act next⦄, P state → step state act = some next →
      Q next ∨ P next ∧ measure next ≤ measure state)
    (decreases : ∀ ⦃state act next⦄, P state → Serves act → step state act = some next →
      Q next ∨ P next ∧ measure next < measure state) : LeadsTo states P Q := by
  refine LeadsTo.of_measure measure fun size => ?_
  rintro n ⟨holds, same⟩
  obtain ⟨last, after, serving⟩ := served n holds
  refine @reaches_of_serving _ _ step states acts (fun state => P state ∧ measure state = size)
    (fun state => Q state ∨ P state ∧ measure state < size) Serves run ?_ ?_ n last
    ⟨holds, same⟩ after serving
  · rintro state act next ⟨holds, rfl⟩ stepped
    rcases keeps holds stepped with reached | ⟨still, bound⟩
    · exact Or.inr (Or.inl reached)
    · rcases Nat.lt_or_eq_of_le bound with less | same
      · exact Or.inr (Or.inr ⟨still, less⟩)
      · exact Or.inl ⟨still, same⟩
  · rintro state act next ⟨holds, rfl⟩ serving stepped
    exact decreases holds serving stepped

/-- Where a number decreases until something is idle, what every action keeps until `Q`
holds lasts until then. -/
theorem leadsTo_of_draining {step : Step σ Act} {states : Nat → σ} {acts : Nat → Act}
    {Idle P Q : σ → Prop} {Serves : Act → Prop} (run : Forever step states acts)
    (measure : σ → Nat) (served : Served states acts (fun state => ¬Idle state) Serves)
    (bounded : ∀ ⦃state act next⦄, ¬Idle state → step state act = some next →
      measure next ≤ measure state)
    (decreases : ∀ ⦃state act next⦄, Serves act → step state act = some next →
      measure next < measure state)
    (keeps : ∀ ⦃state act next⦄, P state → step state act = some next → P next ∨ Q next) :
    LeadsTo states P (fun state => Q state ∨ P state ∧ Idle state) := by
  have after ⦃state act next⦄ (holds : P state) (stepped : step state act = some next) :
      (Q next ∨ P next ∧ Idle next) ∨ P next ∧ ¬Idle next := by
    rcases keeps holds stepped with still | reached
    · by_cases idle : Idle next
      · exact Or.inl (Or.inr ⟨still, idle⟩)
      · exact Or.inr ⟨still, idle⟩
    · exact Or.inl (Or.inl reached)
  have busy : LeadsTo states (fun state => P state ∧ ¬Idle state)
      (fun state => Q state ∨ P state ∧ Idle state) :=
    leadsTo_of_decreasing run measure (fun n busy => served n busy.2)
      (fun _ _ _ holds stepped =>
        (after holds.1 stepped).imp_right fun still => ⟨still, bounded holds.2 stepped⟩)
      (fun _ _ _ holds serving stepped =>
        (after holds.1 stepped).imp_right fun still => ⟨still, decreases serving stepped⟩)
  intro n holds
  by_cases idle : Idle (states n)
  · exact ⟨n, Nat.le_refl n, Or.inr ⟨holds, idle⟩⟩
  · exact busy n ⟨holds, idle⟩

/-- Finitely many facts that hold from some moment on hold together from some moment on. -/
theorem eventually_all {α : Type u} {items : List α} {P : α → Nat → Prop}
    (each : ∀ item ∈ items, ∃ time, ∀ later, time ≤ later → P item later) :
    ∃ time, ∀ later, time ≤ later → ∀ item ∈ items, P item later := by
  induction items with
  | nil => exact ⟨0, fun _ _ _ absent => absurd absent List.not_mem_nil⟩
  | cons first rest ih =>
      obtain ⟨start, holds⟩ := each first List.mem_cons_self
      obtain ⟨others, hold⟩ := ih fun item member => each item (List.mem_cons_of_mem _ member)
      refine ⟨max start others, fun later after item member => ?_⟩
      rcases List.mem_cons.mp member with rfl | member
      · exact holds later (Nat.le_trans (Nat.le_max_left _ _) after)
      · exact hold later (Nat.le_trans (Nat.le_max_right _ _) after) item member

end Cncpp.Transition

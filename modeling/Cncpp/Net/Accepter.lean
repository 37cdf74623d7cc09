import Cncpp.Transition.Forever

/-!
# The acceptor

`TcpAccepter::startAccept` takes an `io_context` for the next connection and issues one
`async_accept`, whose completion handler calls the accept callback, if there is one, and
then `startAccept` again.  `stopAccept` cancels and closes the acceptor, from the callback
or from elsewhere and at any time; it leaves no mark that the handler looks at.

The sockets are left out: no decision depends on them.
-/

namespace Cncpp.Net

open Cncpp.Transition

/-- Where the chain of completion handlers is. -/
inductive AcceptPhase where
  /-- `startAccept` has been called. -/
  | entered
  /-- `startAccept` has its `io_context`. -/
  | obtained
  /-- The `async_accept` is pending. -/
  | pending
  /-- The handler is inside of `accept_callback_`. -/
  | callback
  deriving DecidableEq

/-- An object of `class TcpAccepter`. -/
structure TcpAccepter where
  /-- `acceptor_` is open. -/
  isOpen : Bool
  /-- `accept_callback_` is set. -/
  hasCallback : Bool
  phase : AcceptPhase
  /-- History: the calls of `get_io_context`. -/
  contexts : Nat
  /-- History: the calls of `async_accept`. -/
  issued : Nat
  deriving DecidableEq

/-- The steps of the handlers, of the callback, and of other threads. -/
inductive AcceptAction where
  | getIoContext
  | asyncAccept
  | complete (error : Bool)
  | handleAcpErr
  | callbackReturns
  | stopAccept
  deriving DecidableEq

namespace TcpAccepter

/-- The first call of `startAccept`. -/
def start (hasCallback : Bool) : TcpAccepter :=
  ⟨true, hasCallback, .entered, 0, 0⟩

/-- `stopAccept`. -/
def stopAccept (accepter : TcpAccepter) : TcpAccepter :=
  { accepter with isOpen := false }

/-- `handleAcpErr` closes the socket and stops. -/
def handleAcpErr (accepter : TcpAccepter) : TcpAccepter :=
  accepter.stopAccept

/-- One step.  Once the acceptor is closed, an `async_accept` completes with an error. -/
def step : Step TcpAccepter AcceptAction
  | accepter, .getIoContext =>
      if accepter.phase = .entered then
        some { accepter with phase := .obtained, contexts := accepter.contexts + 1 }
      else none
  | accepter, .asyncAccept =>
      if accepter.phase = .obtained then
        some { accepter with phase := .pending, issued := accepter.issued + 1 }
      else none
  | accepter, .complete error =>
      if accepter.phase = .pending ∧ (accepter.isOpen = true ∨ error = true) then
        some { accepter with phase := if accepter.hasCallback then .callback else .entered }
      else none
  | accepter, .handleAcpErr =>
      if accepter.phase = .callback then some accepter.handleAcpErr else none
  | accepter, .callbackReturns =>
      if accepter.phase = .callback then some { accepter with phase := .entered } else none
  | accepter, .stopAccept => some accepter.stopAccept

end TcpAccepter

/-- The action stops the acceptor. -/
def AcceptAction.stops : AcceptAction → Bool
  | handleAcpErr => true
  | stopAccept => true
  | _ => false

/-- After `stopAccept` has returned, neither `async_accept` nor `get_io_context` is called
again. -/
def StopsForGood (states : Nat → TcpAccepter) (acts : Nat → AcceptAction) : Prop :=
  ∀ n, (acts n).stops = true → ∀ later, n < later →
    (states later).issued = (states (n + 1)).issued ∧
      (states later).contexts = (states (n + 1)).contexts

/-- The actions that end a phase. -/
def AcceptPhase.EndedBy : AcceptPhase → AcceptAction → Prop
  | entered, act => act = .getIoContext
  | obtained, act => act = .asyncAccept
  | pending, act => ∃ error, act = .complete error
  | callback, act => act = .callbackReturns

/-- Threads go on, a pending `async_accept` completes, and the callback returns. -/
def FairAccept (states : Nat → TcpAccepter) (acts : Nat → AcceptAction) : Prop :=
  ∀ phase : AcceptPhase, Served states acts (·.phase = phase) phase.EndedBy

namespace TcpAccepter

/-- A phase lasts until an action that ends it. -/
theorem phase_persists {phase : AcceptPhase} ⦃accepter : TcpAccepter⦄ ⦃act : AcceptAction⦄
    ⦃next : TcpAccepter⦄ (here : accepter.phase = phase) (lasts : ¬ phase.EndedBy act)
    (stepped : accepter.step act = some next) : next.phase = phase := by
  subst here
  cases act with
  | getIoContext =>
      simp only [step, Option.ite_none_right_eq_some] at stepped
      rw [stepped.1] at lasts
      exact absurd rfl lasts
  | asyncAccept =>
      simp only [step, Option.ite_none_right_eq_some] at stepped
      rw [stepped.1] at lasts
      exact absurd rfl lasts
  | complete error =>
      simp only [step, Option.ite_none_right_eq_some] at stepped
      rw [stepped.1.1] at lasts
      exact absurd ⟨error, rfl⟩ lasts
  | handleAcpErr =>
      simp only [step, Option.ite_none_right_eq_some, Option.some.injEq] at stepped
      rw [← stepped.2]
      rfl
  | callbackReturns =>
      simp only [step, Option.ite_none_right_eq_some] at stepped
      rw [stepped.1] at lasts
      exact absurd rfl lasts
  | stopAccept =>
      cases stepped
      rfl

variable {states : Nat → TcpAccepter} {acts : Nat → AcceptAction}

theorem obtained_leadsTo_pending (run : Forever step states acts)
    (fair : FairAccept states acts) :
    LeadsTo states (·.phase = .obtained) (·.phase = .pending) := by
  apply leadsTo_of_served run (fair .obtained) phase_persists
  rintro accepter act next here rfl stepped
  simp only [step, here, if_true, Option.some.injEq] at stepped
  simp [← stepped]

theorem pending_leadsTo_handler (run : Forever step states acts)
    (fair : FairAccept states acts) :
    LeadsTo states (·.phase = .pending)
      (fun accepter => accepter.phase = .callback ∨ accepter.phase = .entered) := by
  apply leadsTo_of_served run (fair .pending) phase_persists
  rintro accepter act next _ ⟨error, rfl⟩ stepped
  simp only [step, Option.ite_none_right_eq_some, Option.some.injEq] at stepped
  rw [← stepped.2]
  cases accepter.hasCallback with
  | false => exact Or.inr rfl
  | true => exact Or.inl rfl

theorem callback_leadsTo_entered (run : Forever step states acts)
    (fair : FairAccept states acts) :
    LeadsTo states (·.phase = .callback) (·.phase = .entered) := by
  apply leadsTo_of_served run (fair .callback) phase_persists
  rintro accepter act next here rfl stepped
  simp only [step, here, if_true, Option.some.injEq] at stepped
  simp [← stepped]

/-- From everywhere `startAccept` is called again. -/
theorem leadsTo_entered (run : Forever step states acts) (fair : FairAccept states acts) :
    LeadsTo states (fun _ => True) (·.phase = .entered) := by
  have handler : LeadsTo states
      (fun accepter => accepter.phase = .callback ∨ accepter.phase = .entered)
      (·.phase = .entered) :=
    (callback_leadsTo_entered run fair).or (LeadsTo.of_imp fun _ => id)
  have pending := (pending_leadsTo_handler run fair).trans handler
  have obtained := (obtained_leadsTo_pending run fair).trans pending
  intro n _
  cases phase : (states n).phase with
  | entered => exact ⟨n, Nat.le_refl n, phase⟩
  | obtained => exact obtained n phase
  | pending => exact pending n phase
  | callback => exact handler n (Or.inl phase)

/-- `get_io_context` is called again and again, whether the acceptor was stopped or not. -/
theorem getIoContext_recurs (run : Forever step states acts) (fair : FairAccept states acts)
    (n : Nat) : ∃ later, n ≤ later ∧
      (states (later + 1)).contexts = (states later).contexts + 1 := by
  obtain ⟨middle, after, entered⟩ := leadsTo_entered run fair n trivial
  obtain ⟨later, again, serving, still⟩ :=
    serving_action run (fair .entered) phase_persists entered
  refine ⟨later, Nat.le_trans after again, ?_⟩
  have stepped := run later
  rw [show acts later = .getIoContext from serving] at stepped
  simp only [step, still, if_true, Option.some.injEq] at stepped
  simp [← stepped]

/-- The acceptor stops for good in no run in which it is stopped at all. -/
theorem stopsForGood_iff_never_stopped (run : Forever step states acts)
    (fair : FairAccept states acts) :
    StopsForGood states acts ↔ ∀ n, (acts n).stops = false := by
  constructor
  · intro good n
    cases stops : (acts n).stops with
    | false => rfl
    | true =>
        obtain ⟨later, after, again⟩ := getIoContext_recurs run fair (n + 1)
        have before := (good n stops later after).2
        have behind := (good n stops (later + 1) (Nat.lt_succ_of_lt after)).2
        rw [behind, before] at again
        exact absurd again (Nat.ne_of_lt (Nat.lt_succ_self _))
  · intro never n stops
    rw [never n] at stops
    cases stops

/-- The action that ends the phase the acceptor is in, with an error for the accept. -/
def nextAct (accepter : TcpAccepter) : AcceptAction :=
  match accepter.phase with
  | .entered => .getIoContext
  | .obtained => .asyncAccept
  | .pending => .complete true
  | .callback => .callbackReturns

theorem nextAct_ends (accepter : TcpAccepter) : accepter.phase.EndedBy accepter.nextAct := by
  unfold nextAct
  cases accepter.phase with
  | entered => rfl
  | obtained => rfl
  | pending => exact ⟨true, rfl⟩
  | callback => rfl

theorem step_nextAct_isSome (accepter : TcpAccepter) :
    (accepter.step accepter.nextAct).isSome = true := by
  unfold nextAct
  cases phase : accepter.phase <;> simp [step, phase]

/-- Every phase ends at once, except that the first `async_accept` is still pending when
the acceptor is stopped. -/
def stoppingAct (n : Nat) (accepter : TcpAccepter) : AcceptAction :=
  if n = 2 then .stopAccept else accepter.nextAct

/-- The states of this run. -/
def stopping : Nat → TcpAccepter
  | 0 => start false
  | n + 1 => ((stopping n).step (stoppingAct n (stopping n))).getD (stopping n)

theorem stopping_forever : Forever step stopping (fun n => stoppingAct n (stopping n)) := by
  intro n
  have taken : ((stopping n).step (stoppingAct n (stopping n))).isSome = true := by
    by_cases second : n = 2
    · simp [stoppingAct, second, step]
    · simpa [stoppingAct, second] using step_nextAct_isSome (stopping n)
  obtain ⟨next, stepped⟩ := Option.isSome_iff_exists.mp taken
  simp [stopping, stepped]

theorem stopping_fair : FairAccept stopping (fun n => stoppingAct n (stopping n)) := by
  intro phase n here
  by_cases second : n = 2
  · subst second
    refine ⟨3, by decide, ?_⟩
    have same : (stopping 3).phase = phase := here
    rw [← same]
    exact nextAct_ends (stopping 3)
  · refine ⟨n, Nat.le_refl n, ?_⟩
    rw [← here]
    simpa [stoppingAct, second] using nextAct_ends (stopping n)

/-- The theorem at this run. -/
theorem stopping_not_for_good :
    ¬ StopsForGood stopping (fun n => stoppingAct n (stopping n)) := by
  rw [stopsForGood_iff_never_stopped stopping_forever stopping_fair]
  intro never
  exact absurd (never 2) (by decide)

/-- The acceptor is stopped while an `async_accept` is pending, and again from the callback.
Then the handler takes another `io_context` and issues another `async_accept`. -/
theorem stopped_accepts_again :
    ∃ stopped final,
      exec step (start true) [.getIoContext, .asyncAccept, .stopAccept] = some stopped ∧
        exec step stopped [.complete true, .handleAcpErr, .callbackReturns, .getIoContext,
          .asyncAccept] = some final ∧
        (stopped.contexts, stopped.issued) = (1, 1) ∧ (final.contexts, final.issued) = (2, 2) :=
  ⟨_, _, rfl, rfl, rfl, rfl⟩

end TcpAccepter

end Cncpp.Net

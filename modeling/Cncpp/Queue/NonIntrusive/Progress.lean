import Cncpp.Queue.NonIntrusive.Correctness
import Cncpp.Transition.Forever

/-!
# Progress of the non-intrusive queue

In an infinite run no producer stops for ever before a step of `Enqueue`, and the consumer
goes on calling `Dequeue`.  Then every input of every producer is returned in the end.  A
late link stops the consumer, and with it all values behind the gap; the promise that is
used there is the one about the producer behind which the consumer stands.

The producers get further inputs during the run, so that a queue inside of a larger
component is covered.
-/

namespace Cncpp.Queue.NonIntrusive

open Cncpp.Transition

variable {P T : Type}

/-- A step of a thread, or further inputs for the producers. -/
inductive Event (P T : Type) where
  | act (action : Action P)
  | supply (more : P → List T)

/-- The queue among producers that get their inputs during the run. -/
def eventStep [DecidableEq P] : Step (State P T) (Event P T)
  | state, .act action => step state action
  | state, .supply more =>
      some { state with programs := fun producer => state.programs producer ++ more producer }

/-- A producer with an input exchanges, one between its two steps makes the second, and the
consumer goes on. -/
structure Fair (states : Nat → State P T) (events : Nat → Event P T) : Prop where
  exchanges : ∀ producer, Served states events
    (fun state => state.pending producer = none ∧ state.programs producer ≠ [])
    (fun event => ∃ node, event = .act (.exchange producer node))
  stores : ∀ producer, Served states events (fun state => state.pending producer ≠ none)
    (· = .act (.store producer))
  consumes : Served states events (fun _ => True) (· = .act .consume)

/-- The invariant, for whatever the producers have got. -/
def Sound [DecidableEq P] (state : State P T) : Prop :=
  ∃ programs queued, Inv programs state queued

/-! ## What an event does -/

/-- The inversion of `eventStep`. -/
inductive Happens [DecidableEq P] (state : State P T) : Event P T → State P T → Prop where
  | exchange {producer : P} {node : Addr} {input : T} {rest : List T}
      (ready : state.pending producer = none)
      (program : state.programs producer = input :: rest)
      (free : (state.heap node).isFree = true) :
      Happens state (.act (.exchange producer node)) (exchange state producer node input rest)
  | store {producer : P} {prevHead node : Addr}
      (late : state.pending producer = some (prevHead, node)) :
      Happens state (.act (.store producer)) (storeNext state producer prevHead node)
  | consume : Happens state (.act .consume) (consume state)
  | supply (more : P → List T) :
      Happens state (.supply more)
        { state with programs := fun producer => state.programs producer ++ more producer }

variable [DecidableEq P]

theorem happens {state next : State P T} {event : Event P T}
    (stepped : eventStep state event = some next) : Happens state event next := by
  rcases event with action | more
  · cases action with
    | exchange producer node =>
        simp only [eventStep, step] at stepped
        split at stepped
        case h_1 input rest ready program =>
          rw [Option.ite_none_right_eq_some, Option.some.injEq] at stepped
          obtain ⟨free, rfl⟩ := stepped
          exact .exchange ready program free
        case h_2 => contradiction
    | store producer =>
        simp only [eventStep, step, Option.map_eq_some_iff] at stepped
        obtain ⟨⟨prevHead, node⟩, late, rfl⟩ := stepped
        exact .store late
    | consume =>
        cases stepped
        exact .consume
  · cases stepped
    exact .supply more

theorem Sound.eventStep {state next : State P T} {event : Event P T} (sound : Sound state)
    (stepped : eventStep state event = some next) : Sound next := by
  obtain ⟨programs, queued, inv⟩ := sound
  rcases event with action | more
  · exact ⟨programs, step_inv ⟨queued, inv⟩ stepped⟩
  · cases stepped
    exact ⟨_, queued, inv.reprogram fun _ => rfl⟩

omit [DecidableEq P] in
/-- The consumer leaves the producers alone. -/
theorem consume_frame (state : State P T) :
    (consume state).exchanged = state.exchanged ∧ (consume state).pending = state.pending ∧
      (consume state).programs = state.programs := by
  unfold consume
  repeat' split
  all_goals exact ⟨rfl, rfl, rfl⟩

/-- What has been exchanged stays so. -/
theorem Happens.exchanged {state next : State P T} {event : Event P T}
    (happened : Happens state event next) : state.exchanged <+: next.exchanged := by
  cases happened with
  | exchange ready program free => exact List.prefix_append _ _
  | store late => exact List.prefix_refl _
  | consume => rw [(consume_frame state).1]
  | supply more => exact List.prefix_refl _

/-- What the other threads leave to the consumer. -/
structure Aside (state next : State P T) : Prop where
  consumer : next.consumer = state.consumer
  tail : next.tail = state.tail
  returned : next.returned = state.returned
  links : ∀ left right, nextOf state.heap left = some right → nextOf next.heap left = some right

theorem Happens.aside {state next : State P T} {event : Event P T} (sound : Sound state)
    (happened : Happens state event next) (other : event ≠ .act .consume) : Aside state next := by
  obtain ⟨_, _, inv⟩ := sound
  cases happened with
  | exchange ready program free =>
      refine ⟨rfl, rfl, rfl, fun left right stored => ?_⟩
      rw [nextOf, heap_exchange free (alive_of_next stored)]
      exact stored
  | @store producer prevHead node late =>
      refine ⟨rfl, rfl, rfl, fun left right stored => ?_⟩
      obtain ⟨gap, unlinked⟩ := inv.linked.pending_adjacent producer prevHead node late
      rw [nextOf_storeNext (inv.alive prevHead gap.left_mem), Function.update_of_ne]
      · exact stored
      · rintro rfl
        rw [unlinked] at stored
        contradiction
  | consume => contradiction
  | supply more => exact ⟨rfl, rfl, rfl, fun _ _ stored => stored⟩

/-- A late producer stays late until it stores its link. -/
theorem Happens.pending {state next : State P T} {event : Event P T}
    (happened : Happens state event next) {producer : P} {late : Addr × Addr}
    (before : state.pending producer = some late) (other : event ≠ .act (.store producer)) :
    next.pending producer = some late := by
  cases happened with
  | @exchange exchanging node input rest ready program free =>
      have apart : producer ≠ exchanging := by
        rintro rfl
        rw [ready] at before
        contradiction
      exact (Function.update_of_ne apart _ _).trans before
  | @store storing prevHead node _ =>
      have apart : producer ≠ storing := by
        rintro rfl
        exact other rfl
      exact (Function.update_of_ne apart _ _).trans before
  | consume => rw [(consume_frame state).2.1, before]
  | supply more => exact before

/-- The inputs that a producer has got so far. -/
def offered (state : State P T) (producer : P) : List T :=
  exchangedBy state producer ++ state.programs producer

theorem exchangedBy_exchange_self (state : State P T) (producer : P) (node : Addr) (input : T)
    (rest : List T) :
    exchangedBy (exchange state producer node input rest) producer =
      exchangedBy state producer ++ [input] := by
  simp [exchangedBy, exchange]

theorem Happens.exchangedBy {state next : State P T} {event : Event P T}
    (happened : Happens state event next) {producer : P} :
    exchangedBy state producer <+: NonIntrusive.exchangedBy next producer :=
  (happened.exchanged.filter _).map _

/-- An event takes nothing away from what a producer has got. -/
theorem Happens.offered {state next : State P T} {event : Event P T}
    (happened : Happens state event next) {producer : P} :
    offered state producer <+: NonIntrusive.offered next producer := by
  cases happened with
  | exchange ready program free =>
      rw [NonIntrusive.offered, NonIntrusive.offered, exchangedBy_exchange program]
  | store late => exact List.prefix_refl _
  | consume =>
      obtain ⟨exchanged, _, programs⟩ := consume_frame state
      simp only [NonIntrusive.offered, NonIntrusive.exchangedBy, exchanged, programs]
      exact List.prefix_refl _
  | supply more => exact ⟨more producer, List.append_assoc _ _ _⟩

/-- A ready producer with an input stays so until it exchanges. -/
theorem Happens.ready {state next : State P T} {event : Event P T}
    (happened : Happens state event next) {producer : P}
    (before : state.pending producer = none ∧ state.programs producer ≠ [])
    (other : ¬∃ node, event = .act (.exchange producer node)) :
    next.pending producer = none ∧ next.programs producer ≠ [] := by
  cases happened with
  | @exchange exchanging node input rest ready program free =>
      have apart : producer ≠ exchanging := by
        rintro rfl
        exact other ⟨node, rfl⟩
      simpa [NonIntrusive.exchange, apart] using before
  | @store storing prevHead node late =>
      have apart : producer ≠ storing := by
        rintro rfl
        rw [before.1] at late
        contradiction
      simpa [storeNext, access, apart] using before
  | consume =>
      rw [(consume_frame state).2.1, (consume_frame state).2.2]
      exact before
  | supply more => exact ⟨before.1, List.append_ne_nil_of_left_ne_nil before.2 _⟩

/-! ## The consumer returns a value -/

/-- The steps of the consumer until it returns, where it finds a link. -/
@[simp]
def Consumer.rank : Consumer T → Nat
  | .idle => 5
  | .gotTail _ => 4
  | .gotNext _ _ => 3
  | .gotData _ _ _ => 2
  | .stored _ _ => 1

/-- `count` values have been returned, and the consumer has found the link to the next one or
will find it. -/
structure Advancing (count : Nat) (state : State P T) : Prop where
  sound : Sound state
  returned : state.returned.length = count
  link : 3 < state.consumer.rank → ∃ node, nextOf state.heap state.tail = some node

theorem Advancing.aside {count : Nat} {state next : State P T} (advancing : Advancing count state)
    (sound : Sound next) (aside : Aside state next) :
    Advancing count next ∧ next.consumer.rank = state.consumer.rank := by
  refine ⟨⟨sound, by rw [aside.returned, advancing.returned], fun early => ?_⟩,
    by rw [aside.consumer]⟩
  rw [aside.consumer] at early
  obtain ⟨node, stored⟩ := advancing.link early
  rw [aside.tail]
  exact ⟨node, aside.links _ _ stored⟩

/-- The consumer comes one step closer to its return. -/
theorem Advancing.consume {count : Nat} {state : State P T} (advancing : Advancing count state)
    (sound : Sound (consume state)) :
    count < (NonIntrusive.consume state).returned.length ∨
      Advancing count (NonIntrusive.consume state) ∧
        (NonIntrusive.consume state).consumer.rank < state.consumer.rank := by
  obtain ⟨_, _, inv⟩ := advancing.sound
  have ok := inv.consumer
  have link := advancing.link
  have returned := advancing.returned
  cases position : state.consumer with
  | idle =>
      simp only [NonIntrusive.consume, position] at sound ⊢
      rw [position] at link
      exact Or.inr ⟨⟨sound, returned, fun _ => link (by simp)⟩, by simp⟩
  | gotTail tail =>
      rw [position] at ok link
      cases ok
      obtain ⟨node, stored⟩ := link (by simp)
      change (state.heap state.tail).next = some node at stored
      simp only [NonIntrusive.consume, position, stored] at sound ⊢
      exact Or.inr ⟨⟨sound, returned, fun early => absurd early (by simp)⟩, by simp⟩
  | gotNext tail next =>
      rw [position] at ok
      rcases ok with ⟨rfl, stored⟩
      obtain ⟨value, data⟩ := inv.data_queued (List.mem_of_head? (inv.linked.pop stored).1)
      change (state.heap next).data = some value at data
      simp only [NonIntrusive.consume, position, data] at sound ⊢
      exact Or.inr ⟨⟨sound, returned, fun early => absurd early (by simp)⟩, by simp⟩
  | gotData tail next result =>
      simp only [NonIntrusive.consume, position] at sound ⊢
      exact Or.inr ⟨⟨sound, returned, fun early => absurd early (by simp)⟩, by simp⟩
  | stored tail result =>
      left
      simp only [NonIntrusive.consume, position, deleteTail, List.length_append, returned]
      exact Nat.lt_succ_self count

/-! ## The late link -/

/-- `count` values have been returned, and the consumer stands before the late link of a
producer. -/
structure Blocked (producer : P) (count : Nat) (state : State P T) : Prop where
  sound : Sound state
  returned : state.returned.length = count
  position : 3 < state.consumer.rank
  late : ∃ node, state.pending producer = some (state.tail, node)

/-- The consumer that finds no link is soon back. -/
theorem Blocked.consume {producer : P} {count : Nat} {state : State P T}
    (blocked : Blocked producer count state) (sound : Sound (consume state)) :
    Blocked producer count (NonIntrusive.consume state) := by
  obtain ⟨_, _, inv⟩ := blocked.sound
  obtain ⟨node, late⟩ := blocked.late
  have unlinked := (inv.linked.pending_adjacent producer _ _ late).2
  change (state.heap state.tail).next = none at unlinked
  have ok := inv.consumer
  have early := blocked.position
  cases position : state.consumer with
  | idle =>
      simp only [NonIntrusive.consume, position] at sound ⊢
      exact ⟨sound, blocked.returned, by simp, node, late⟩
  | gotTail tail =>
      rw [position] at ok
      cases ok
      simp only [NonIntrusive.consume, position, unlinked] at sound ⊢
      exact ⟨sound, blocked.returned, by simp, node, late⟩
  | gotNext | gotData | stored =>
      rw [position] at early
      contradiction

/-- Where a value has been exchanged and not returned, the consumer can go on, or it stands
before a late link. -/
theorem Sound.advancing_or_blocked {state : State P T} (sound : Sound state)
    (behind : state.returned.length < state.exchanged.length) :
    Advancing state.returned.length state ∨
      ∃ producer, Blocked producer state.returned.length state := by
  obtain ⟨_, queued, inv⟩ := id sound
  by_cases early : 3 < state.consumer.rank
  · cases stored : nextOf state.heap state.tail with
    | some node => exact Or.inl ⟨sound, rfl, fun _ => ⟨node, stored⟩⟩
    | none =>
        rcases inv.linked.front_unlinked stored with rfl | ⟨node, _, producer, _, late⟩
        · have values := congrArg List.length inv.values
          have nothing : state.consumer.inFlight = [] := by
            cases position : state.consumer with
            | stored =>
                rw [position] at early
                contradiction
            | _ => rfl
          rw [nothing] at values
          simp only [List.append_nil, List.map_nil, List.length_map] at values
          omega
        · exact Or.inr ⟨producer, sound, rfl, early, node, late⟩
  · exact Or.inl ⟨sound, rfl, fun late => absurd late early⟩

section Runs

variable {states : Nat → State P T} {events : Nat → Event P T}

/-- The late link is stored, and the consumer can go on. -/
theorem blocked_leadsTo_advancing (run : Forever eventStep states events)
    (fair : Fair states events) (producer : P) (count : Nat) :
    LeadsTo states (Blocked producer count) (Advancing count) := by
  have served : Served states events (Blocked producer count) (· = .act (.store producer)) := by
    rintro n ⟨_, _, _, node, late⟩
    exact fair.stores producer n (Option.ne_none_iff_exists'.mpr ⟨_, late⟩)
  refine leadsTo_of_served run served ?_ ?_
  · intro state event next blocked other stepped
    have sound := blocked.sound.eventStep stepped
    obtain ⟨node, late⟩ := blocked.late
    by_cases consumes : event = .act .consume
    · subst consumes
      cases stepped
      exact blocked.consume sound
    · have aside := (happens stepped).aside blocked.sound consumes
      refine ⟨sound, by rw [aside.returned, blocked.returned], ?_, node, ?_⟩
      · rw [aside.consumer]
        exact blocked.position
      · rw [aside.tail]
        exact (happens stepped).pending late other
  · rintro state event next blocked rfl stepped
    have sound := blocked.sound.eventStep stepped
    obtain ⟨_, _, inv⟩ := blocked.sound
    obtain ⟨node, late⟩ := blocked.late
    have front := inv.alive state.tail List.mem_cons_self
    simp only [eventStep, step, late, Option.map_some, Option.some.injEq] at stepped
    subst stepped
    refine ⟨sound, blocked.returned, fun _ => ⟨node, ?_⟩⟩
    rw [nextOf_storeNext front]
    exact Function.update_self _ _ _

/-- The consumer that can go on returns a value. -/
theorem advancing_leadsTo_returned (run : Forever eventStep states events)
    (fair : Fair states events) (count : Nat) :
    LeadsTo states (Advancing count) (fun state => count < state.returned.length) := by
  have decreases ⦃state : State P T⦄ ⦃event next⦄ (advancing : Advancing count state)
      (serves : event = .act .consume) (stepped : eventStep state event = some next) :
      count < next.returned.length ∨
        Advancing count next ∧ next.consumer.rank < state.consumer.rank := by
    have sound := advancing.sound.eventStep stepped
    subst serves
    cases stepped
    exact advancing.consume sound
  refine leadsTo_of_decreasing run (fun state => state.consumer.rank)
    (fun n _ => fair.consumes n trivial) ?_ decreases
  intro state event next advancing stepped
  by_cases consumes : event = .act .consume
  · exact (decreases advancing consumes stepped).imp_right (And.imp_right Nat.le_of_lt)
  · have aside := (happens stepped).aside advancing.sound consumes
    obtain ⟨still, same⟩ := advancing.aside (advancing.sound.eventStep stepped) aside
    exact Or.inr ⟨still, Nat.le_of_eq same⟩

/-- A further value is returned where one has been exchanged. -/
theorem behind_leadsTo_returned (run : Forever eventStep states events)
    (fair : Fair states events) (count : Nat) :
    LeadsTo states
      (fun state => Sound state ∧ state.returned.length = count ∧
        count < state.exchanged.length)
      (fun state => count < state.returned.length) := by
  rintro n ⟨sound, rfl, behind⟩
  rcases sound.advancing_or_blocked behind with advancing | ⟨producer, blocked⟩
  · exact advancing_leadsTo_returned run fair _ n advancing
  · exact (blocked_leadsTo_advancing run fair producer _).trans
      (advancing_leadsTo_returned run fair _) n blocked

/-- Whatever has been exchanged is returned. -/
theorem exchanged_leadsTo_returned (run : Forever eventStep states events)
    (fair : Fair states events) (count : Nat) :
    LeadsTo states (fun state => Sound state ∧ count ≤ state.exchanged.length)
      (fun state => count ≤ state.returned.length) :=
  catches_up run (fun _ _ _ => Sound.eventStep)
    (fun _ _ _ stepped => (happens stepped).exchanged.length_le)
    (behind_leadsTo_returned run fair) count

/-- Where as many values have been returned as had been exchanged, they are the same. -/
theorem returned_of_exchanged (run : Forever eventStep states events) {n later : Nat}
    (sound : Sound (states later)) (after : n ≤ later)
    (returned : (states n).exchanged.length ≤ (states later).returned.length) :
    (states n).exchanged.map Prod.snd <+: (states later).returned := by
  obtain ⟨_, _, inv⟩ := sound
  have grown : (states n).exchanged <+: (states later).exchanged :=
    run.grows (fun _ _ _ stepped => (happens stepped).exchanged) after
  refine List.prefix_of_prefix_length_le (grown.map _) inv.safe.order ?_
  rwa [List.length_map]

/-! ## Whatever a producer has got -/

theorem offered_grows (run : Forever eventStep states events) (producer : P) {n later : Nat}
    (after : n ≤ later) : offered (states n) producer <+: offered (states later) producer :=
  run.grows (fun _ _ _ stepped => (happens stepped).offered) after

theorem exchangedBy_grows (run : Forever eventStep states events) (producer : P) {n later : Nat}
    (after : n ≤ later) :
    exchangedBy (states n) producer <+: exchangedBy (states later) producer :=
  run.grows (fun _ _ _ stepped => (happens stepped).exchangedBy) after

/-- A late producer gets ready. -/
theorem late_leadsTo_ready (run : Forever eventStep states events) (fair : Fair states events)
    (producer : P) :
    LeadsTo states (fun state => state.pending producer ≠ none)
      (fun state => state.pending producer = none) := by
  refine leadsTo_of_served run (fair.stores producer) ?_ ?_
  · intro state event next late other stepped
    obtain ⟨gap, late⟩ := Option.ne_none_iff_exists'.mp late
    rw [(happens stepped).pending late other]
    exact Option.some_ne_none gap
  · rintro state event next _ rfl stepped
    cases happens stepped
    exact Function.update_self _ _ _

/-- A ready producer with an input exchanges. -/
theorem ready_leadsTo_exchanged (run : Forever eventStep states events) (fair : Fair states events)
    (producer : P) (count : Nat) :
    LeadsTo states
      (fun state => (state.pending producer = none ∧ state.programs producer ≠ []) ∧
        count ≤ (exchangedBy state producer).length)
      (fun state => count < (exchangedBy state producer).length) := by
  have served : Served states events
      (fun state => (state.pending producer = none ∧ state.programs producer ≠ []) ∧
        count ≤ (exchangedBy state producer).length)
      (fun event => ∃ node, event = .act (.exchange producer node)) :=
    fun n holds => fair.exchanges producer n holds.1
  refine leadsTo_of_served run served ?_ ?_
  · rintro state event next ⟨ready, enough⟩ other stepped
    exact ⟨(happens stepped).ready ready other,
      enough.trans (happens stepped).exchangedBy.length_le⟩
  · rintro state event next ⟨_, enough⟩ ⟨node, rfl⟩ stepped
    cases happens stepped
    rw [exchangedBy_exchange_self, List.length_append]
    exact Nat.lt_succ_of_le enough

/-- A producer that has got more than it has exchanged exchanges. -/
theorem waiting_leadsTo_exchanged (run : Forever eventStep states events)
    (fair : Fair states events) (producer : P) (count : Nat) :
    LeadsTo states
      (fun state => True ∧ (exchangedBy state producer).length = count ∧
        count < (offered state producer).length)
      (fun state => count < (exchangedBy state producer).length) := by
  rintro n ⟨_, rfl, further⟩
  obtain ⟨middle, before, ready⟩ : ∃ middle, n ≤ middle ∧
      (states middle).pending producer = none := by
    by_cases late : (states n).pending producer = none
    · exact ⟨n, Nat.le_refl n, late⟩
    · exact late_leadsTo_ready run fair producer n late
  have enough := (exchangedBy_grows run producer before).length_le
  by_cases rest : (states middle).programs producer = []
  · have got := further.trans_le (offered_grows run producer before).length_le
    rw [offered, rest, List.append_nil] at got
    exact ⟨middle, before, got⟩
  · obtain ⟨later, after, more⟩ :=
      ready_leadsTo_exchanged run fair producer _ middle ⟨⟨ready, rest⟩, enough⟩
    exact ⟨later, before.trans after, more⟩

/-- Whatever a producer has got is exchanged. -/
theorem offered_leadsTo_exchanged (run : Forever eventStep states events)
    (fair : Fair states events) (producer : P) (count : Nat) :
    LeadsTo states (fun state => True ∧ count ≤ (offered state producer).length)
      (fun state => count ≤ (exchangedBy state producer).length) :=
  catches_up run (fun _ _ _ _ _ => trivial)
    (fun _ _ _ stepped => (happens stepped).offered.length_le)
    (waiting_leadsTo_exchanged run fair producer) count

/-- Where no producer stops for ever and the consumer goes on, whatever a producer has got at
some time is returned then or later, in its order. -/
theorem offered_leadsTo_returned {programs : P → List T} {front : Addr}
    (run : Forever eventStep states events) (started : states 0 = start programs front)
    (fair : Fair states events) (producer : P) (n : Nat) :
    ∃ later, n ≤ later ∧ (offered (states n) producer).Sublist (states later).returned := by
  have sound (n : Nat) : Sound (states n) :=
    run.invariant (fun _ _ _ => Sound.eventStep)
      (by rw [started]; exact ⟨programs, [], start_inv programs front⟩) n
  obtain ⟨middle, before, all⟩ :=
    offered_leadsTo_exchanged run fair producer _ n ⟨trivial, Nat.le_refl _⟩
  obtain ⟨later, after, returned⟩ :=
    exchanged_leadsTo_returned run fair _ middle ⟨sound middle, Nat.le_refl _⟩
  refine ⟨later, before.trans after, ?_⟩
  have own : offered (states n) producer <+: exchangedBy (states middle) producer :=
    List.prefix_of_prefix_length_le (offered_grows run producer before)
      (List.prefix_append _ _) all
  have among : (exchangedBy (states middle) producer).Sublist
      ((states middle).exchanged.map Prod.snd) := List.filter_sublist.map _
  have handed := returned_of_exchanged run (sound later) after returned
  exact own.sublist.trans (among.trans handed.sublist)

end Runs

/-! ## A run -/

/-- No producer has anything to do. -/
def AtRest (state : State P T) : Prop :=
  ∀ producer, state.pending producer = none ∧ state.programs producer = []

omit [DecidableEq P] in
theorem AtRest.consume {state : State P T} (rest : AtRest state) :
    AtRest (NonIntrusive.consume state) := by
  intro producer
  rw [(consume_frame state).2.1, (consume_frame state).2.2]
  exact rest producer

/-- The second of two producers appends behind the late link of the first.  Then the consumer
is alone. -/
def lateLinkEvents : Nat → Event Bool Nat
  | 0 => .supply twoPrograms
  | 1 => .act (.exchange false 1)
  | 2 => .act (.exchange true 2)
  | 3 => .act (.store true)
  | 4 => .act .consume
  | 5 => .act (.store false)
  | 6 => .act (.exchange false 3)
  | 7 => .act (.store false)
  | _ + 8 => .act .consume

/-- The states of this run. -/
abbrev lateLinkStates : Nat → State Bool Nat :=
  follow eventStep (start (fun _ => []) 0) lateLinkEvents

theorem lateLink_settles : Settles eventStep (start (fun _ => []) 0) lateLinkEvents 8 AtRest where
  enabled := by decide +kernel
  quiet producer := by cases producer <;> exact ⟨rfl, rfl⟩
  goesOn _ _ rest := ⟨_, rfl, rest.consume⟩

theorem lateLink_fair : Fair lateLinkStates lateLinkEvents where
  exchanges producer := by
    have late (state : State Bool Nat) (rest : AtRest state) :
        ¬(state.pending producer = none ∧ state.programs producer ≠ []) :=
      fun further => further.2 (rest producer).2
    cases producer with
    | false => exact lateLink_settles.served 6 ⟨3, rfl⟩ (by decide +kernel) late
    | true => exact lateLink_settles.served 2 ⟨2, rfl⟩ (by decide +kernel) late
  stores producer := by
    have late (state : State Bool Nat) (rest : AtRest state) : ¬state.pending producer ≠ none :=
      fun between => between (rest producer).1
    cases producer with
    | false => exact lateLink_settles.served 7 rfl (by decide +kernel) late
    | true => exact lateLink_settles.served 3 rfl (by decide +kernel) late
  consumes := fun n _ => ⟨n + 8, Nat.le_add_right n 8, rfl⟩

/-- The theorem at this run, for the inputs of the first producer. -/
theorem lateLink_leadsTo_returned :
    ∃ later, 1 ≤ later ∧ [10, 11].Sublist (lateLinkStates later).returned :=
  offered_leadsTo_returned lateLink_settles.forever rfl lateLink_fair false 1

end Cncpp.Queue.NonIntrusive

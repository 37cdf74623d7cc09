import Cncpp.Queue.Intrusive.Destroy
import Cncpp.Transition.Forever

/-!
# Progress of the intrusive queue

In an infinite run no producer stops for ever inside of `Enqueue`, and the consumer goes on
calling `Dequeue`.  Then every object is returned.  Whatever stands at the front, the
consumer gets past it: a late link is stored by its producer; the dummy is skipped once it
has a link; a last object is followed by the dummy that the consumer itself enqueues,
unless a producer is faster.
-/

namespace Cncpp.Queue.Intrusive

open Cncpp.Transition

variable {P T : Type} [DecidableEq P] [DecidableEq T]

/-- A producer inside of `Enqueue` makes its next step, and the consumer goes on. -/
structure Fair (states : Nat → State P T) (acts : Nat → Action P T) : Prop where
  exchanges : ∀ producer, Served states acts (fun state => state.cleared producer ≠ none)
    (· = .exchange producer)
  stores : ∀ producer, Served states acts (fun state => state.pending (some producer) ≠ none)
    (· = .store producer)
  consumes : Served states acts (fun _ => True) (· = .consume)

/-- The invariant for some chain. -/
def Sound (state : State P T) : Prop :=
  ∃ queued, Inv state queued

/-! ## What a step does -/

/-- The inversion of `step`. -/
inductive Happens (state : State P T) : Action P T → State P T → Prop where
  | enqueue {producer : P} {input : T} (free : state.cleared producer = none)
      (new : .object input ∉ state.inside) :
      Happens state (.enqueue producer input) (enqueue state producer input)
  | exchange {producer : P} {input : T} (cleared : state.cleared producer = some input) :
      Happens state (.exchange producer) (exchange state producer input)
  | store {producer : P} {prevHead node : Node T}
      (late : state.pending (some producer) = some (prevHead, node)) :
      Happens state (.store producer) (store state producer prevHead node)
  | consume : Happens state .consume (consume state)

theorem happens {state next : State P T} {act : Action P T}
    (stepped : step state act = some next) : Happens state act next := by
  cases act with
  | enqueue producer input =>
      simp only [step, Option.ite_none_right_eq_some, Option.some.injEq] at stepped
      obtain ⟨⟨free, _, new⟩, rfl⟩ := stepped
      exact .enqueue free new
  | exchange producer =>
      simp only [step, Option.map_eq_some_iff] at stepped
      obtain ⟨input, cleared, rfl⟩ := stepped
      exact .exchange cleared
  | store producer =>
      simp only [step, Option.map_eq_some_iff] at stepped
      obtain ⟨⟨prevHead, node⟩, late, rfl⟩ := stepped
      exact .store late
  | consume =>
      cases stepped
      exact .consume

theorem Sound.step {state next : State P T} {act : Action P T} (sound : Sound state)
    (stepped : step state act = some next) : Sound next :=
  step_inv sound stepped

theorem Sound.consume {state : State P T} (sound : Sound state) : Sound (consume state) := by
  obtain ⟨_, inv⟩ := sound
  exact inv.consume

/-- What has been exchanged stays so. -/
theorem Happens.exchanged {state next : State P T} {act : Action P T}
    (happened : Happens state act next) : state.exchanged <+: next.exchanged := by
  cases happened with
  | enqueue free new => exact List.prefix_refl _
  | exchange cleared => exact List.prefix_append _ _
  | store late => exact List.prefix_refl _
  | consume => rw [(consume_frame state).1]

/-- A late producer stays late until it stores its link. -/
theorem Happens.pending {state next : State P T} {act : Action P T} (sound : Sound state)
    (happened : Happens state act next) {producer : P} {late : Node T × Node T}
    (before : state.pending (some producer) = some late) (other : act ≠ .store producer) :
    next.pending (some producer) = some late := by
  obtain ⟨_, inv⟩ := sound
  cases happened with
  | enqueue free new => exact before
  | @exchange exchanging input cleared =>
      have apart : producer ≠ exchanging := by
        rintro rfl
        have ready := inv.ready producer (by rw [cleared]; exact Option.some_ne_none input)
        rw [ready] at before
        contradiction
      refine (Function.update_of_ne ?_ _ _).trans before
      exact fun same => apart (Option.some.inj same)
  | @store storing prevHead node _ =>
      have apart : producer ≠ storing := by
        rintro rfl
        exact other rfl
      refine (Function.update_of_ne ?_ _ _).trans before
      exact fun same => apart (Option.some.inj same)
  | consume => rw [(consume_frame state).2.1, before]

theorem consume_cleared (state : State P T) : (consume state).cleared = state.cleared := by
  unfold consume
  repeat' split
  all_goals rfl

/-- A producer has its object until the exchange. -/
theorem Happens.cleared {state next : State P T} {act : Action P T}
    (happened : Happens state act next) {producer : P} {value : T}
    (before : state.cleared producer = some value) (other : act ≠ .exchange producer) :
    next.cleared producer = some value := by
  cases happened with
  | @enqueue entering input free new =>
      have apart : producer ≠ entering := by
        rintro rfl
        rw [free] at before
        contradiction
      exact (Function.update_of_ne apart _ _).trans before
  | @exchange exchanging input _ =>
      have apart : producer ≠ exchanging := by
        rintro rfl
        exact other rfl
      exact (Function.update_of_ne apart _ _).trans before
  | store late => exact before
  | consume => rw [consume_cleared, before]

/-! ## Objects that have not been returned -/

/-- `count` objects have been returned, one more has been exchanged, and `front` is the front
of the chain. -/
structure Behind (count : Nat) (front : Node T) (state : State P T) : Prop where
  sound : Sound state
  returned : state.returned.length = count
  more : count < state.exchanged.length
  front : state.tail = front

variable {count : Nat} {front : Node T}

/-- The other threads leave the front to the consumer. -/
theorem Behind.aside {state next : State P T} {act : Action P T} (behind : Behind count front state)
    (stepped : step state act = some next) (other : act ≠ .consume) :
    Behind count front next ∧ next.consumer = state.consumer ∧
      ∀ node, state.link front = some node → next.link front = some node := by
  have sound := behind.sound.step stepped
  have more := behind.more.trans_le (happens stepped).exchanged.length_le
  have ⟨_, inv⟩ := behind.sound
  obtain ⟨_, returned, _, rfl⟩ := behind
  cases happens stepped with
  | @enqueue producer input free new =>
      refine ⟨⟨sound, returned, more, rfl⟩, rfl, fun node stored => ?_⟩
      have apart : state.tail ≠ .object input := fun same =>
        inv.outside new (same ▸ List.mem_cons_self)
      exact (Function.update_of_ne apart _ _).trans stored
  | exchange cleared => exact ⟨⟨sound, returned, more, rfl⟩, rfl, fun _ stored => stored⟩
  | @store producer prevHead input late =>
      refine ⟨⟨sound, returned, more, rfl⟩, rfl, fun node stored => ?_⟩
      have apart : state.tail ≠ prevHead := by
        rintro rfl
        rw [(inv.linked.pending_adjacent _ _ _ late).2] at stored
        contradiction
      exact (Function.update_of_ne apart _ _).trans stored
  | consume => contradiction

/-- Only skipping the dummy and returning an object move `_tail`. -/
theorem consume_tail (state : State P T) (noSkip : ∀ next, state.consumer ≠ .skip next)
    (noFound : ∀ tail next, state.consumer ≠ .found tail next) :
    (consume state).tail = state.tail := by
  cases position : state.consumer with
  | idle => rw [consume, position]
  | clearing | exchanging | storing =>
      rw [consume, position]
      rfl
  | skip next => exact absurd position (noSkip next)
  | found tail next => exact absurd position (noFound tail next)
  | gotTail tail =>
      simp only [consume, position]
      split <;> split <;> rfl
  | skipped tail | missing tail | reload tail =>
      simp only [consume, position]
      split <;> rfl

theorem Behind.consume {state : State P T} (behind : Behind count front state)
    (noSkip : ∀ next, state.consumer ≠ .skip next)
    (noFound : ∀ tail next, state.consumer ≠ .found tail next) :
    Behind count front (consume state) where
  sound := behind.sound.consume
  returned := by rw [consume_returned state noFound, behind.returned]
  more := by
    rw [(consume_frame state).1]
    exact behind.more
  front := by rw [consume_tail state noSkip noFound, behind.front]

/-- Where the front has no link, the consumer stays before it. -/
theorem Behind.consume_unlinked {state : State P T} (behind : Behind count front state)
    (unlinked : state.link front = none) : Behind count front (Intrusive.consume state) := by
  have ⟨_, inv⟩ := behind.sound
  have ok := inv.consumer
  rw [behind.front] at ok
  apply behind.consume
  · intro next position
    rw [position] at ok
    rw [ok.1, ok.2] at unlinked
    contradiction
  · intro tail next position
    rw [position] at ok
    rw [← ok.1, ok.2.2] at unlinked
    contradiction

/-- The consumer keeps the links of the objects. -/
theorem consume_link {state : State P T} {queued : List (Node T)} (inv : Inv state queued)
    {node next : Node T} (object : node ≠ .dummy) (stored : state.link node = some next) :
    (consume state).link node = some next := by
  cases position : state.consumer with
  | idle | skip | found | exchanging =>
      rw [consume, position]
      exact stored
  | clearing tail =>
      rw [consume, position]
      exact (Function.update_of_ne object _ _).trans stored
  | storing tail prevHead =>
      have late := inv.own
      rw [position] at late
      have apart : node ≠ prevHead := by
        rintro rfl
        rw [(inv.linked.pending_adjacent _ _ _ late).2] at stored
        contradiction
      rw [consume, position]
      exact (Function.update_of_ne apart _ _).trans stored
  | gotTail tail =>
      simp only [consume, position]
      split <;> split <;> exact stored
  | skipped tail | missing tail | reload tail =>
      simp only [consume, position]
      split <;> exact stored

/-! ## What the consumer does at the front -/

/-- The front has a link. -/
structure Stored (count : Nat) (front : Node T) (state : State P T) : Prop where
  behind : Behind count front state
  link : ∃ node, state.link front = some node

/-- The link behind the front is late. -/
structure Held (producer : P) (count : Nat) (front : Node T) (state : State P T) : Prop where
  behind : Behind count front state
  late : ∃ node, state.pending (some producer) = some (front, node)

/-- The consumer is about to store the link from the front to the dummy. -/
structure Following (count : Nat) (front : Node T) (state : State P T) : Prop where
  behind : Behind count front state
  position : ∃ tail, state.consumer = .storing tail front

omit [DecidableEq P] in
theorem Held.unlinked {producer : P} {state : State P T} (held : Held producer count front state) :
    state.link front = none := by
  obtain ⟨⟨⟨_, inv⟩, _, _, _⟩, _, late⟩ := held
  exact (inv.linked.pending_adjacent _ _ _ late).2

omit [DecidableEq P] in
/-- What has been exchanged and not returned is in the chain. -/
theorem Behind.objects_ne_nil {state : State P T} (behind : Behind count front state)
    {queued : List (Node T)} (inv : Inv state queued) : objects (front :: queued) ≠ [] := by
  intro vacant
  have values := congrArg List.length inv.values
  rw [behind.front, vacant, List.append_nil, behind.returned, List.length_map] at values
  exact Nat.ne_of_lt behind.more values

omit [DecidableEq P] in
/-- Where an object or something else follows, the front has a link, or somebody is about to
store it. -/
theorem Behind.followed {state : State P T} (behind : Behind count front state)
    (follows : state.head ≠ front) :
    Stored count front state ∨ (∃ producer, Held producer count front state) ∨
      Following count front state := by
  obtain ⟨queued, inv⟩ := behind.sound
  have linked := inv.linked
  rw [behind.front] at linked
  cases stored : state.link front with
  | some node => exact Or.inl ⟨behind, node, stored⟩
  | none =>
      rcases linked.front_unlinked stored with rfl | ⟨node, rest, thread, _, late⟩
      · have ends := inv.head
        rw [behind.front] at ends
        exact absurd (Option.some.inj ends).symm follows
      · cases thread with
        | some producer => exact Or.inr (Or.inl ⟨producer, behind, node, late⟩)
        | none =>
            rw [inv.own] at late
            refine Or.inr (Or.inr ⟨behind, ?_⟩)
            cases position : state.consumer with
            | storing tail prevHead =>
                rw [position] at late
                cases late
                exact ⟨tail, rfl⟩
            | _ =>
                rw [position] at late
                contradiction

omit [DecidableEq P] in
/-- The dummy is not the last node. -/
theorem Behind.dummy_followed {state : State P T} (behind : Behind count .dummy state) :
    state.head ≠ .dummy := by
  intro last
  obtain ⟨queued, inv⟩ := behind.sound
  have ends := inv.head
  have nodup := inv.linked.nodup
  rw [behind.front] at ends nodup
  rw [last] at ends
  obtain rfl := queued_of_front_last nodup ends
  exact behind.objects_ne_nil inv rfl

omit [DecidableEq P] in
/-- A node with a link is not the last one. -/
theorem Stored.followed {state : State P T} (stored : Stored count front state) :
    state.head ≠ front := by
  rintro rfl
  obtain ⟨⟨⟨_, inv⟩, _, _, _⟩, node, link⟩ := stored
  rw [inv.linked.link_last inv.head] at link
  contradiction

/-- The rank of the position, for an object with a link at the front: a call that has missed
the link returns false, and the next one finds it. -/
def Consumer.toReturn : Consumer T → Nat
  | .missing _ => 11
  | consumer => consumer.rank

/-- The consumer comes closer to returning the object at the front. -/
theorem Stored.consume {state : State P T} (stored : Stored count front state)
    (object : front ≠ .dummy) :
    count < (Intrusive.consume state).returned.length ∨
      Stored count front (Intrusive.consume state) ∧
        (Intrusive.consume state).consumer.toReturn < state.consumer.toReturn := by
  have ⟨behind, next, link⟩ := stored
  have ⟨_, inv⟩ := behind.sound
  have ok := inv.consumer
  rw [behind.front] at ok
  have noSkip (node : Node T) : state.consumer ≠ .skip node := by
    intro position
    rw [position] at ok
    exact object ok.1
  have goesOn (noFound : ∀ tail node, state.consumer ≠ .found tail node) :
      Stored count front (Intrusive.consume state) :=
    ⟨behind.consume noSkip noFound, next, consume_link inv object link⟩
  cases position : state.consumer with
  | skip node => exact absurd position (noSkip node)
  | found tail node =>
      left
      simp only [Intrusive.consume, position, returnTail, List.length_append, behind.returned]
      exact Nat.lt_succ_self count
  | idle | clearing | exchanging | storing =>
      refine Or.inr ⟨goesOn (by simp [position]), ?_⟩
      rw [Intrusive.consume, position]
      exact Nat.lt_succ_self _
  | gotTail tail =>
      refine Or.inr ⟨goesOn (by simp [position]), ?_⟩
      rw [position] at ok
      obtain rfl : tail = front := ok
      simp [Intrusive.consume, position, link, object, Consumer.toReturn, Consumer.rank]
  | skipped tail | reload tail =>
      refine Or.inr ⟨goesOn (by simp [position]), ?_⟩
      rw [position] at ok
      obtain rfl := ok.1
      simp [Intrusive.consume, position, link, Consumer.toReturn, Consumer.rank]
  | missing tail =>
      refine Or.inr ⟨goesOn (by simp [position]), ?_⟩
      rw [position] at ok
      have apart : tail ≠ state.head := ok.1 ▸ stored.followed.symm
      simp [Intrusive.consume, position, apart, returnFalse, Consumer.toReturn, Consumer.rank]

/-- The consumer comes closer to skipping the dummy at the front. -/
theorem Stored.consume_dummy {state : State P T} (stored : Stored count .dummy state) :
    (∃ object, object ≠ .dummy ∧ Behind count object (Intrusive.consume state)) ∨
      Stored count .dummy (Intrusive.consume state) ∧
        (Intrusive.consume state).consumer.rank < state.consumer.rank := by
  have ⟨behind, next, link⟩ := stored
  have sound := behind.sound.consume
  have ⟨queued, inv⟩ := behind.sound
  have ok := inv.consumer
  have front := behind.front
  cases position : state.consumer with
  | idle =>
      simp only [Intrusive.consume, position] at sound ⊢
      exact Or.inr
        ⟨⟨⟨sound, behind.returned, behind.more, front⟩, next, link⟩, Nat.lt_succ_self _⟩
  | gotTail tail =>
      rw [position] at ok
      obtain rfl : tail = .dummy := ok.trans front
      simp only [Intrusive.consume, position, link, if_true] at sound ⊢
      exact Or.inr
        ⟨⟨⟨sound, behind.returned, behind.more, front⟩, next, link⟩, Nat.lt_succ_self _⟩
  | skip node =>
      rw [position] at ok
      have skipped : state.link state.tail = some node := front ▸ ok.2
      obtain ⟨rest, rfl, _⟩ := inv.front skipped
      have nodup := inv.linked.nodup
      rw [front] at nodup
      simp only [Intrusive.consume, position] at sound ⊢
      refine Or.inl ⟨node, ?_, sound, behind.returned, behind.more, rfl⟩
      rintro rfl
      exact (List.nodup_cons.mp nodup).1 List.mem_cons_self
  | skipped =>
      rw [position] at ok
      exact absurd (ok.1.trans front) ok.2
  | found | missing | clearing | exchanging | storing | reload =>
      rw [position] at ok
      exact absurd (ok.1.trans front) ok.2.1

/-- Behind the last object the consumer comes closer to enqueueing the dummy. -/
theorem Behind.consume_last {state : State P T} (behind : Behind count front state)
    (object : front ≠ .dummy) (last : state.head = front) :
    Behind count front (Intrusive.consume state) ∧
      ((Intrusive.consume state).head ≠ front ∨
        (Intrusive.consume state).consumer.rank < state.consumer.rank) := by
  have ⟨queued, inv⟩ := behind.sound
  have unlinked := inv.linked.link_last inv.head
  rw [last] at unlinked
  refine ⟨behind.consume_unlinked unlinked, ?_⟩
  have ok := inv.consumer
  have ends := inv.head
  have nodup := inv.linked.nodup
  rw [behind.front] at ok ends nodup
  rw [last] at ends
  obtain rfl := queued_of_front_last nodup ends
  cases position : state.consumer with
  | idle | clearing =>
      right
      rw [Intrusive.consume, position]
      exact Nat.lt_succ_self _
  | exchanging tail =>
      left
      rw [Intrusive.consume, position]
      exact object.symm
  | gotTail tail =>
      rw [position] at ok
      obtain rfl : tail = front := ok
      right
      simp [Intrusive.consume, position, unlinked, object, Consumer.rank]
  | skipped tail =>
      rw [position] at ok
      obtain rfl := ok.1
      right
      simp [Intrusive.consume, position, unlinked, Consumer.rank]
  | missing tail =>
      rw [position] at ok
      right
      simp [Intrusive.consume, position, ok.1, last, Consumer.rank]
  | skip node =>
      rw [position] at ok
      exact absurd ok.1 object
  | found tail node =>
      rw [position] at ok
      rw [← ok.1, ok.2.2] at unlinked
      contradiction
  | storing | reload =>
      rw [position] at ok
      exact absurd rfl ok.2.2

section Runs

variable {states : Nat → State P T} {acts : Nat → Action P T}

/-- A late producer stores its link. -/
theorem held_leadsTo_stored (run : Forever step states acts) (fair : Fair states acts)
    (producer : P) (count : Nat) (front : Node T) :
    LeadsTo states (Held producer count front) (Stored count front) := by
  have served : Served states acts (Held producer count front) (· = .store producer) := by
    rintro n ⟨_, node, late⟩
    exact fair.stores producer n (Option.ne_none_iff_exists'.mpr ⟨_, late⟩)
  refine leadsTo_of_served run served ?_ ?_
  · intro state act next held other stepped
    obtain ⟨node, late⟩ := held.late
    have still := (happens stepped).pending held.behind.sound late other
    by_cases consumes : act = .consume
    · subst consumes
      cases stepped
      exact ⟨held.behind.consume_unlinked held.unlinked, node, still⟩
    · exact ⟨(held.behind.aside stepped consumes).1, node, still⟩
  · rintro state act next ⟨behind, node, late⟩ rfl stepped
    refine ⟨(behind.aside stepped (by simp)).1, node, ?_⟩
    simp only [step, late, Option.map_some, Option.some.injEq] at stepped
    rw [← stepped]
    exact Function.update_self _ _ _

/-- The consumer stores its own link. -/
theorem following_leadsTo_stored (run : Forever step states acts) (fair : Fair states acts)
    (count : Nat) (front : Node T) :
    LeadsTo states (Following count front) (Stored count front) := by
  have served : Served states acts (Following count front) (· = .consume) :=
    fun n _ => fair.consumes n trivial
  refine leadsTo_of_served run served ?_ ?_
  · rintro state act next ⟨behind, tail, position⟩ other stepped
    obtain ⟨still, same, _⟩ := behind.aside stepped other
    exact ⟨still, tail, same.trans position⟩
  · rintro state act next ⟨behind, tail, position⟩ rfl stepped
    cases stepped
    refine ⟨behind.consume (by simp [position]) (by simp [position]), .dummy, ?_⟩
    rw [consume, position]
    exact Function.update_self _ _ _

/-- Where something follows, the front gets a link. -/
theorem followed_leadsTo_stored (run : Forever step states acts) (fair : Fair states acts)
    (count : Nat) (front : Node T) :
    LeadsTo states (fun state => Behind count front state ∧ state.head ≠ front)
      (Stored count front) := by
  rintro n ⟨behind, follows⟩
  rcases behind.followed follows with stored | ⟨producer, held⟩ | following
  · exact ⟨n, Nat.le_refl n, stored⟩
  · exact held_leadsTo_stored run fair producer count front n held
  · exact following_leadsTo_stored run fair count front n following

/-- What is stored at the front stays so until the consumer moves. -/
theorem Stored.aside {state next : State P T} {act : Action P T}
    (stored : Stored count front state) (stepped : step state act = some next)
    (other : act ≠ .consume) : Stored count front next ∧ next.consumer = state.consumer := by
  obtain ⟨behind, node, link⟩ := stored
  obtain ⟨still, same, links⟩ := behind.aside stepped other
  exact ⟨⟨still, node, links node link⟩, same⟩

/-- Where every step of the consumer decreases a number until `There`, and the other threads
do not concern it, `Here` leads to `There`. -/
theorem consumer_leadsTo {Here There : State P T → Prop} (run : Forever step states acts)
    (fair : Fair states acts) (rank : Consumer T → Nat)
    (consumes : ∀ state, Here state →
      There (consume state) ∨ Here (consume state) ∧
        rank (consume state).consumer < rank state.consumer)
    (aside : ∀ ⦃state act next⦄, Here state → step state act = some next →
      act ≠ .consume → There next ∨ Here next ∧ next.consumer = state.consumer) :
    LeadsTo states Here There := by
  have served : Served states acts Here (· = .consume) := fun n _ => fair.consumes n trivial
  refine leadsTo_of_decreasing run (fun state => rank state.consumer) served ?_ ?_
  · intro state act next holds stepped
    by_cases serves : act = .consume
    · subst serves
      cases stepped
      exact (consumes state holds).imp_right (And.imp_right Nat.le_of_lt)
    · exact (aside holds stepped serves).imp_right (And.imp_right fun same => by rw [same])
  · rintro state act next holds rfl stepped
    cases stepped
    exact consumes state holds

/-- An object with a link is returned. -/
theorem stored_leadsTo_returned (run : Forever step states acts) (fair : Fair states acts)
    (count : Nat) {front : Node T} (object : front ≠ .dummy) :
    LeadsTo states (Stored count front) (fun state => count < state.returned.length) :=
  consumer_leadsTo run fair Consumer.toReturn (fun _ stored => stored.consume object)
    fun _ _ _ stored stepped other => Or.inr (stored.aside stepped other)

/-- A dummy with a link is skipped. -/
theorem stored_leadsTo_object (run : Forever step states acts) (fair : Fair states acts)
    (count : Nat) :
    LeadsTo states (Stored count .dummy)
      (fun state => ∃ object, object ≠ .dummy ∧ Behind count object state) :=
  consumer_leadsTo run fair Consumer.rank (fun _ stored => stored.consume_dummy)
    fun _ _ _ stored stepped other => Or.inr (stored.aside stepped other)

/-- Behind the last object comes the dummy, or another object. -/
theorem last_leadsTo_followed (run : Forever step states acts) (fair : Fair states acts)
    (count : Nat) {front : Node T} (object : front ≠ .dummy) :
    LeadsTo states (fun state => Behind count front state ∧ state.head = front)
      (fun state => Behind count front state ∧ state.head ≠ front) := by
  refine consumer_leadsTo run fair Consumer.rank ?_ ?_
  · rintro state ⟨behind, last⟩
    obtain ⟨still, further⟩ := behind.consume_last object last
    by_cases last : (consume state).head = front
    · exact Or.inr ⟨⟨still, last⟩, further.resolve_left fun follows => follows last⟩
    · exact Or.inl ⟨still, last⟩
  · rintro state act next ⟨behind, _⟩ stepped other
    obtain ⟨still, same, _⟩ := behind.aside stepped other
    by_cases last : next.head = front
    · exact Or.inr ⟨⟨still, last⟩, same⟩
    · exact Or.inl ⟨still, last⟩

/-- An object at the front is returned. -/
theorem object_leadsTo_returned (run : Forever step states acts) (fair : Fair states acts)
    (count : Nat) {front : Node T} (object : front ≠ .dummy) :
    LeadsTo states (Behind count front) (fun state => count < state.returned.length) := by
  have followed := (followed_leadsTo_stored run fair count front).trans
    (stored_leadsTo_returned run fair count object)
  intro n behind
  by_cases last : (states n).head = front
  · exact (last_leadsTo_followed run fair count object).trans followed n ⟨behind, last⟩
  · exact followed n ⟨behind, last⟩

/-- A further object is returned where one has been exchanged. -/
theorem behind_leadsTo_returned (run : Forever step states acts) (fair : Fair states acts)
    (count : Nat) :
    LeadsTo states
      (fun state => Sound state ∧ state.returned.length = count ∧
        count < state.exchanged.length)
      (fun state => count < state.returned.length) := by
  have objects : LeadsTo states
      (fun state => ∃ object, object ≠ .dummy ∧ Behind count object state)
      (fun state => count < state.returned.length) := by
    rintro n ⟨object, apart, behind⟩
    exact object_leadsTo_returned run fair count apart n behind
  have dummy := (followed_leadsTo_stored run fair count .dummy).trans
    ((stored_leadsTo_object run fair count).trans objects)
  rintro n ⟨sound, returned, more⟩
  by_cases front : (states n).tail = .dummy
  · have behind : Behind count .dummy (states n) := ⟨sound, returned, more, front⟩
    exact dummy n ⟨behind, behind.dummy_followed⟩
  · exact objects n ⟨_, front, sound, returned, more, rfl⟩

/-- Whatever has been exchanged is returned. -/
theorem exchanged_leadsTo_returned (run : Forever step states acts) (fair : Fair states acts)
    (sound : ∀ place, Sound (states place)) (n : Nat) :
    ∃ later, n ≤ later ∧ (states n).exchanged.map .object <+: (states later).returned := by
  obtain ⟨later, after, returned⟩ := catches_up run (fun _ _ _ => Sound.step)
    (fun _ _ _ stepped => (happens stepped).exchanged.length_le)
    (behind_leadsTo_returned run fair) _ n ⟨sound n, Nat.le_refl _⟩
  refine ⟨later, after, ?_⟩
  obtain ⟨_, inv⟩ := sound later
  have grown : (states n).exchanged <+: (states later).exchanged :=
    run.grows (fun _ _ _ stepped => (happens stepped).exchanged) after
  refine List.prefix_of_prefix_length_le (grown.map _) inv.safe.order ?_
  rwa [List.length_map]

/-- A producer that has cleared the link of its object exchanges. -/
theorem cleared_leadsTo_exchanged (run : Forever step states acts) (fair : Fair states acts)
    {n : Nat} {producer : P} {value : T} (cleared : (states n).cleared producer = some value) :
    ∃ later, n ≤ later ∧ ∃ between,
      (states n).exchanged ++ between ++ [value] = (states later).exchanged := by
  have served : Served states acts (fun state => state.cleared producer = some value)
      (· = .exchange producer) :=
    fun n holds => fair.exchanges producer n (Option.ne_none_iff_exists'.mpr ⟨_, holds⟩)
  obtain ⟨later, after, taken, still⟩ := serving_action run served
    (fun _ _ _ holds other stepped => (happens stepped).cleared holds other) cleared
  obtain ⟨between, grown⟩ := run.grows (fun _ _ _ stepped => (happens stepped).exchanged) after
  refine ⟨later + 1, Nat.le_succ_of_le after, between, ?_⟩
  have stepped := run later
  rw [taken] at stepped
  simp only [step, still, Option.map_some, Option.some.injEq] at stepped
  rw [← stepped, grown]
  rfl

/-- Where no producer stops for ever inside of `Enqueue` and the consumer goes on, every
object whose `Enqueue` has begun is returned, behind all that had been exchanged by then. -/
theorem enqueued_leadsTo_returned {links : Node T → Option (Node T)}
    (run : Forever step states acts) (started : states 0 = start links)
    (fair : Fair states acts) (n : Nat) :
    (∃ later, n ≤ later ∧ (states n).exchanged.map .object <+: (states later).returned) ∧
      ∀ producer value, (states n).cleared producer = some value →
        ∃ later, n ≤ later ∧ ∃ between,
          ((states n).exchanged ++ between ++ [value]).map .object <+: (states later).returned := by
  have sound (place : Nat) : Sound (states place) :=
    run.invariant (fun _ _ _ => Sound.step) (by rw [started]; exact ⟨[], start_inv links⟩) place
  refine ⟨exchanged_leadsTo_returned run fair sound n, fun producer value cleared => ?_⟩
  obtain ⟨middle, before, between, exchanged⟩ := cleared_leadsTo_exchanged run fair cleared
  obtain ⟨later, after, returned⟩ := exchanged_leadsTo_returned run fair sound middle
  rw [← exchanged] at returned
  exact ⟨later, before.trans after, between, returned⟩

end Runs

/-! ## A run -/

/-- No producer is inside of `Enqueue`. -/
def AtRest (state : State P T) : Prop :=
  ∀ producer, state.cleared producer = none ∧ state.pending (some producer) = none

theorem AtRest.consume {state : State P T} (rest : AtRest state) :
    AtRest (Intrusive.consume state) := by
  intro producer
  rw [consume_cleared, (consume_frame state).2.1]
  exact rest producer

/-- The second producer begins later and exchanges first; its link is the last one that is
stored.  Then the consumer is alone. -/
def outrun : Nat → Action Bool Nat
  | 0 => .enqueue false 5
  | 1 => .enqueue true 6
  | 2 => .exchange true
  | 3 => .consume
  | 4 => .exchange false
  | 5 => .store false
  | 6 => .store true
  | _ + 7 => .consume

/-- The states of this run. -/
abbrev outrunStates : Nat → State Bool Nat :=
  follow step (start fun _ => none) outrun

theorem outrun_settles : Settles step (start fun _ => none) outrun 7 AtRest where
  enabled := by decide +kernel
  quiet producer := by cases producer <;> exact ⟨rfl, rfl⟩
  goesOn _ _ rest := ⟨_, rfl, rest.consume⟩

theorem outrun_fair : Fair outrunStates outrun where
  exchanges producer := by
    have late (state : State Bool Nat) (rest : AtRest state) : ¬state.cleared producer ≠ none :=
      fun begun => begun (rest producer).1
    cases producer with
    | false => exact outrun_settles.served 4 rfl (by decide +kernel) late
    | true => exact outrun_settles.served 2 rfl (by decide +kernel) late
  stores producer := by
    have late (state : State Bool Nat) (rest : AtRest state) :
        ¬state.pending (some producer) ≠ none :=
      fun between => between (rest producer).2
    cases producer with
    | false => exact outrun_settles.served 5 rfl (by decide +kernel) late
    | true => exact outrun_settles.served 6 rfl (by decide +kernel) late
  consumes := fun n _ => ⟨n + 7, Nat.le_add_right n 7, rfl⟩

/-- The theorem at this run, for the object of the first producer. -/
theorem outrun_leadsTo_returned :
    ∃ later, 1 ≤ later ∧ ∃ between,
      (between ++ [5]).map Node.object <+: (outrunStates later).returned :=
  (enqueued_leadsTo_returned outrun_settles.forever rfl outrun_fair 1).2 false 5 rfl

end Cncpp.Queue.Intrusive

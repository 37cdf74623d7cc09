import Cncpp.Queue.Intrusive.Core
import Cncpp.Queue.LinkedChain

/-!
# Correctness of the intrusive queue

The nodes from `_tail` to `_head` form a chain whose links may be late.  Without the
dummy, the chain holds the objects that have been exchanged and not yet returned.  The
dummy is in the chain or outside of it; `Dequeue` appends it only when it has seen the
front to be the last node, and then it is outside.
-/

namespace Cncpp.Queue.Intrusive

open Cncpp.Transition

variable {P T : Type}

/-- The link that the consumer has still to store. -/
def Consumer.late : Consumer T → Option (Node T × Node T)
  | .storing _ prevHead => some (prevHead, .dummy)
  | _ => none

/-- What the consumer's local variables say about a chain with front `front` and the nodes
`queued` behind it. -/
def ConsumerOk (link : Node T → Option (Node T)) (quiet : Bool) (front : Node T)
    (queued : List (Node T)) : Consumer T → Prop
  | .idle => True
  | .gotTail tail => tail = front
  | .skip next => front = .dummy ∧ link .dummy = some next
  | .skipped tail => tail = front ∧ tail ≠ .dummy
  | .found tail next => tail = front ∧ tail ≠ .dummy ∧ link tail = some next
  | .missing tail => tail = front ∧ tail ≠ .dummy ∧ (quiet = true → link tail = none)
  | .clearing tail => tail = front ∧ tail ≠ .dummy ∧ .dummy ∉ front :: queued
  | .exchanging tail =>
      tail = front ∧ tail ≠ .dummy ∧ .dummy ∉ front :: queued ∧ link .dummy = none
  | .storing tail _ => tail = front ∧ tail ≠ .dummy ∧ queued ≠ []
  | .reload tail => tail = front ∧ tail ≠ .dummy ∧ queued ≠ []

variable [DecidableEq T]

/-- The objects of a chain. -/
def objects (chain : List (Node T)) : List (Node T) :=
  chain.filter (· ≠ .dummy)

/-- The invariant, for the nodes behind the front of the chain. -/
structure Inv (state : State P T) (queued : List (Node T)) : Prop where
  linked : Linked (state.tail :: queued) state.link state.pending
  head : (state.tail :: queued).getLast? = some state.head
  values : state.returned ++ objects (state.tail :: queued) = state.exchanged.map .object
  inside : ∀ node, node ∈ state.inside ↔ node ∈ objects (state.tail :: queued) ∨
    ∃ producer value, state.cleared producer = some value ∧ node = .object value
  /-- An object whose link has been cleared is not in the chain. -/
  fresh : ∀ producer value, state.cleared producer = some value →
    .object value ∉ state.tail :: queued ∧ state.link (.object value) = none
  unique : ∀ first second value, state.cleared first = some value →
    state.cleared second = some value → first = second
  active : ∀ producer, producer ∉ state.active →
    state.cleared producer = none ∧ state.pending (some producer) = none
  /-- A producer is at one place of `Enqueue`. -/
  ready : ∀ producer, state.cleared producer ≠ none → state.pending (some producer) = none
  quiet : state.quiet = true → state.active = []
  own : state.pending none = state.consumer.late
  consumer : ConsumerOk state.link state.quiet state.tail queued state.consumer
  misses : ∀ miss ∈ state.misses, miss.quiet = true → miss.returned = miss.exchanged

theorem start_inv (links : Node T → Option (Node T)) : Inv (start links : State P T) [] where
  linked := Linked.singleton (by simp [start])
  head := rfl
  values := rfl
  inside := by
    intro node
    simp [start, objects]
  fresh := by simp [start]
  unique := by simp [start]
  active := by simp [start]
  ready := by simp [start]
  quiet := fun _ => rfl
  own := rfl
  consumer := trivial
  misses := by simp [start]

/-! ## Chains and the dummy -/

theorem objects_append (front back : List (Node T)) :
    objects (front ++ back) = objects front ++ objects back :=
  List.filter_append front back

@[simp]
theorem objects_singleton_object (value : T) : objects [Node.object value] = [.object value] :=
  rfl

@[simp]
theorem objects_singleton_dummy : objects [(Node.dummy : Node T)] = [] :=
  rfl

@[simp]
theorem objects_cons_dummy (chain : List (Node T)) : objects (.dummy :: chain) = objects chain :=
  rfl

theorem objects_cons_of_ne {node : Node T} (object : node ≠ .dummy) (chain : List (Node T)) :
    objects (node :: chain) = node :: objects chain := by
  simp [objects, object]

theorem mem_objects {node : Node T} {chain : List (Node T)} :
    node ∈ objects chain ↔ node ∈ chain ∧ node ≠ .dummy := by
  simp [objects]

omit [DecidableEq T] in
/-- Where the front is the last node, it is the only one. -/
theorem queued_of_front_last {front : Node T} {queued : List (Node T)}
    (nodup : (front :: queued).Nodup) (ends : (front :: queued).getLast? = some front) :
    queued = [] := by
  cases queued with
  | nil => rfl
  | cons next rest =>
      rw [List.getLast?_cons_cons] at ends
      exact absurd (List.mem_of_getLast? ends) (List.nodup_cons.mp nodup).1

omit [DecidableEq T] in
/-- A change that keeps the links of the chain, and appends at most an object, does not
disturb the consumer. -/
theorem ConsumerOk.transfer {link other : Node T → Option (Node T)} {before after : Bool}
    {front : Node T} {queued longer : List (Node T)} {consumer : Consumer T}
    (ok : ConsumerOk link before front queued consumer)
    (links : ∀ node ∈ front :: queued, ∀ next, link node = some next → other node = some next)
    (quiet : after = true → before = true ∧ other = link)
    (dummy : .dummy ∉ front :: queued →
      .dummy ∉ front :: longer ∧ (link .dummy = none → other .dummy = none))
    (grows : queued ≠ [] → longer ≠ []) : ConsumerOk other after front longer consumer := by
  cases consumer with
  | idle => trivial
  | gotTail tail => exact ok
  | skip next =>
      rcases ok with ⟨rfl, stored⟩
      exact ⟨rfl, links _ List.mem_cons_self next stored⟩
  | skipped tail => exact ok
  | found tail next =>
      rcases ok with ⟨rfl, object, stored⟩
      exact ⟨rfl, object, links _ List.mem_cons_self next stored⟩
  | missing tail =>
      rcases ok with ⟨rfl, object, unlinked⟩
      refine ⟨rfl, object, fun still => ?_⟩
      rw [(quiet still).2]
      exact unlinked (quiet still).1
  | clearing tail => exact ⟨ok.1, ok.2.1, (dummy ok.2.2).1⟩
  | exchanging tail =>
      rcases ok with ⟨same, object, outside, unlinked⟩
      exact ⟨same, object, (dummy outside).1, (dummy outside).2 unlinked⟩
  | storing tail prevHead => exact ⟨ok.1, ok.2.1, grows ok.2.2⟩
  | reload tail => exact ⟨ok.1, ok.2.1, grows ok.2.2⟩

/-- An object outside of `inside` is not in the chain. -/
theorem Inv.outside {state : State P T} {queued : List (Node T)} (inv : Inv state queued)
    {input : T} (new : .object input ∉ state.inside) :
    .object input ∉ state.tail :: queued := by
  intro member
  apply new
  exact (inv.inside _).mpr (Or.inl (mem_objects.mpr ⟨member, nofun⟩))

/-! ## Producers -/

variable [DecidableEq P]

/-- A producer does not touch the late link of the consumer. -/
theorem update_some_apply_none {α : Type} (pending : Option P → α) (producer : P) (late : α) :
    Function.update pending (some producer) late none = pending none :=
  Function.update_of_ne (Option.some_ne_none producer).symm late pending

/-- Clearing the link of an object that is not in the queue. -/
theorem Inv.enqueue {state : State P T} {queued : List (Node T)} (inv : Inv state queued)
    {producer : P} {input : T} (free : state.cleared producer = none)
    (waiting : state.pending (some producer) = none) (new : .object input ∉ state.inside) :
    Inv (enqueue state producer input) queued := by
  have outside := inv.outside new
  have kept : ∀ node ∈ state.tail :: queued,
      Function.update state.link (.object input) none node = state.link node := by
    intro node member
    apply Function.update_of_ne
    rintro rfl
    exact outside member
  have others : ∀ {other}, other ≠ producer →
      Function.update state.cleared producer (some input) other = state.cleared other :=
    fun different => Function.update_of_ne different _ _
  have apart : ∀ {other}, state.cleared other ≠ some input := by
    intro other found
    exact new ((inv.inside _).mpr (Or.inr ⟨other, input, found, rfl⟩))
  constructor
  · exact inv.linked.congr kept
  · exact inv.head
  · exact inv.values
  · intro node
    change node ∈ .object input :: state.inside ↔ _
    rw [List.mem_cons, inv.inside node]
    constructor
    · rintro (rfl | queuedNode | ⟨other, value, found, same⟩)
      · exact Or.inr ⟨producer, input, Function.update_self _ _ _, rfl⟩
      · exact Or.inl queuedNode
      · have different : other ≠ producer := by
          rintro rfl
          rw [free] at found
          contradiction
        exact Or.inr ⟨other, value, (others different).trans found, same⟩
    · rintro (queuedNode | ⟨other, value, found, rfl⟩)
      · exact Or.inr (Or.inl queuedNode)
      · rcases update_eq_some_iff.mp found with ⟨_, own⟩ | ⟨_, before⟩
        · cases own
          exact Or.inl rfl
        · exact Or.inr (Or.inr ⟨other, value, before, rfl⟩)
  · intro other value found
    rcases update_eq_some_iff.mp found with ⟨_, own⟩ | ⟨_, before⟩
    · cases own
      exact ⟨outside, Function.update_self _ _ _⟩
    · have different : value ≠ input := by
        rintro rfl
        exact apart before
      refine ⟨(inv.fresh other value before).1, ?_⟩
      exact (Function.update_of_ne (by simpa using different) _ _).trans
        (inv.fresh other value before).2
  · intro first second value firstFound secondFound
    rcases update_eq_some_iff.mp firstFound with ⟨firstSame, own⟩ | ⟨_, firstBefore⟩
    · cases own
      rcases update_eq_some_iff.mp secondFound with ⟨secondSame, _⟩ | ⟨_, secondBefore⟩
      · exact firstSame.trans secondSame.symm
      · exact absurd secondBefore apart
    · rcases update_eq_some_iff.mp secondFound with ⟨_, own⟩ | ⟨_, secondBefore⟩
      · cases own
        exact absurd firstBefore apart
      · exact inv.unique first second value firstBefore secondBefore
  · intro other absent
    have different : other ≠ producer := fun same => absent (same ▸ List.mem_cons_self)
    have before : other ∉ state.active := fun member => absent (List.mem_cons_of_mem _ member)
    exact ⟨(others different).trans (inv.active other before).1, (inv.active other before).2⟩
  · intro other found
    by_cases same : other = producer
    · rw [same]
      exact waiting
    · exact inv.ready other fun before => found ((others same).trans before)
  · intro quiet
    contradiction
  · exact inv.own
  · apply inv.consumer.transfer
    · intro node member next stored
      exact (kept node member).trans stored
    · intro quiet
      contradiction
    · intro absent
      have distinct : (Node.dummy : Node T) ≠ .object input := nofun
      have same : Function.update state.link (.object input) none .dummy = state.link .dummy :=
        Function.update_of_ne distinct _ _
      exact ⟨absent, fun unlinked => same.trans unlinked⟩
    · exact id
  · exact inv.misses

/-- The exchange makes the object the last node of the chain. -/
theorem Inv.exchange {state : State P T} {queued : List (Node T)} (inv : Inv state queued)
    {producer : P} {input : T} (found : state.cleared producer = some input) :
    Inv (exchange state producer input) (queued ++ [.object input]) := by
  obtain ⟨outside, unlinked⟩ := inv.fresh producer input found
  have present : state.cleared producer ≠ none := by
    rw [found]
    nofun
  have waiting := inv.ready producer present
  have others : ∀ {other}, other ≠ producer →
      Function.update state.cleared producer none other = state.cleared other :=
    fun different => Function.update_of_ne different _ _
  have before : ∀ {other value}, Function.update state.cleared producer none other = some value →
      other ≠ producer ∧ state.cleared other = some value := by
    intro other value still
    rcases update_eq_some_iff.mp still with ⟨_, gone⟩ | cleared
    · contradiction
    · exact cleared
  constructor
  · exact inv.linked.append inv.head outside unlinked waiting
  · rw [← List.cons_append]
    exact List.getLast?_concat
  · change state.returned ++ objects (state.tail :: queued ++ [.object input]) =
      (state.exchanged ++ [input]).map .object
    rw [objects_append, ← List.append_assoc, inv.values, List.map_append]
    rfl
  · intro node
    change node ∈ state.inside ↔ node ∈ objects (state.tail :: queued ++ [.object input]) ∨ _
    rw [inv.inside node, objects_append, List.mem_append, objects_singleton_object,
      List.mem_singleton]
    constructor
    · rintro (queuedNode | ⟨other, value, still, same⟩)
      · exact Or.inl (Or.inl queuedNode)
      · by_cases own : other = producer
        · rw [own, found] at still
          cases still
          exact Or.inl (Or.inr same)
        · exact Or.inr ⟨other, value, (others own).trans still, same⟩
    · rintro ((queuedNode | rfl) | ⟨other, value, still, same⟩)
      · exact Or.inl queuedNode
      · exact Or.inr ⟨producer, input, found, rfl⟩
      · exact Or.inr ⟨other, value, (before still).2, same⟩
  · intro other value still
    obtain ⟨different, cleared⟩ := before still
    refine ⟨fun member => ?_, (inv.fresh other value cleared).2⟩
    change _ ∈ state.tail :: queued ++ [.object input] at member
    rcases List.mem_append.mp member with old | last
    · exact (inv.fresh other value cleared).1 old
    · cases List.mem_singleton.mp last
      exact different (inv.unique other producer input cleared found)
  · intro first second value firstStill secondStill
    exact inv.unique first second value (before firstStill).2 (before secondStill).2
  · intro other absent
    have unused := inv.active other absent
    have different : other ≠ producer := by
      rintro rfl
      exact present unused.1
    refine ⟨(others different).trans unused.1, ?_⟩
    exact (Function.update_of_ne (by simpa using different) _ _).trans unused.2
  · intro other still
    have different : other ≠ producer := by
      rintro rfl
      exact still (Function.update_self _ _ _)
    have cleared : state.cleared other ≠ none := fun gone => still ((others different).trans gone)
    exact (Function.update_of_ne (by simpa using different) _ _).trans (inv.ready other cleared)
  · exact inv.quiet
  · exact (update_some_apply_none state.pending producer
      (some (state.head, .object input))).trans inv.own
  · apply inv.consumer.transfer
    · intro node _ next stored
      exact stored
    · intro quiet
      exact ⟨quiet, rfl⟩
    · intro absent
      refine ⟨fun member => ?_, id⟩
      rw [← List.cons_append] at member
      rcases List.mem_append.mp member with old | last
      · exact absent old
      · cases List.mem_singleton.mp last
    · simp
  · exact inv.misses

/-- The late link is stored into a node of the chain. -/
theorem Inv.store {state : State P T} {queued : List (Node T)} (inv : Inv state queued)
    {producer : P} {prevHead input : Node T}
    (late : state.pending (some producer) = some (prevHead, input)) :
    Inv (store state producer prevHead input) queued := by
  obtain ⟨gap, unlinked⟩ := inv.linked.pending_adjacent (some producer) prevHead input late
  have there := gap.left_mem
  have kept : ∀ {node}, node ≠ prevHead →
      Function.update state.link prevHead (some input) node = state.link node :=
    fun different => Function.update_of_ne different _ _
  have gone : state.cleared producer = none := by
    cases cleared : state.cleared producer with
    | none => rfl
    | some value =>
        have waiting := inv.ready producer (by simp [cleared])
        rw [late] at waiting
        contradiction
  have finished : Function.update state.pending (some producer) none (some producer) = none :=
    Function.update_self _ _ _
  have others : ∀ {other}, other ≠ producer →
      Function.update state.pending (some producer) none (some other) =
        state.pending (some other) :=
    fun different => Function.update_of_ne (by simpa using different) _ _
  constructor
  · exact inv.linked.store late
  · exact inv.head
  · exact inv.values
  · exact inv.inside
  · intro other value cleared
    obtain ⟨outside, before⟩ := inv.fresh other value cleared
    refine ⟨outside, (kept ?_).trans before⟩
    rintro rfl
    exact outside there
  · exact inv.unique
  · intro other absent
    by_cases same : other = producer
    · rw [same]
      exact ⟨gone, finished⟩
    · have before := inv.active other fun member =>
        absent (List.mem_filter.mpr ⟨member, by simpa using same⟩)
      exact ⟨before.1, (others same).trans before.2⟩
  · intro other cleared
    by_cases same : other = producer
    · rw [same]
      exact finished
    · exact (others same).trans (inv.ready other cleared)
  · intro quiet
    change state.active.filter _ = []
    rw [inv.quiet quiet]
    rfl
  · exact (update_some_apply_none state.pending producer none).trans inv.own
  · apply inv.consumer.transfer
    · intro node _ next stored
      refine (kept ?_).trans stored
      rintro rfl
      rw [unlinked] at stored
      contradiction
    · intro quiet
      have absent : producer ∉ state.active := by
        rw [inv.quiet quiet]
        exact List.not_mem_nil
      rw [(inv.active producer absent).2] at late
      contradiction
    · intro absent
      refine ⟨absent, fun dummyUnlinked => (kept ?_).trans dummyUnlinked⟩
      rintro rfl
      exact absent there
    · exact id
  · exact inv.misses

/-! ## The consumer -/

omit [DecidableEq P] in
/-- Only the position of the consumer changes, and no link is late. -/
theorem Inv.move {state : State P T} {queued : List (Node T)} (inv : Inv state queued)
    {position : Consumer T} (late : position.late = state.consumer.late)
    (ok : ConsumerOk state.link state.quiet state.tail queued position) :
    Inv { state with consumer := position } queued :=
  { inv with
    own := inv.own.trans late.symm
    consumer := ok }

omit [DecidableEq P] in
/-- The beginning of `Dequeue`. -/
theorem Inv.begin {state : State P T} {queued : List (Node T)} (inv : Inv state queued)
    (idle : state.consumer = .idle) :
    Inv { state with consumer := .gotTail state.tail, quiet := state.active.isEmpty } queued :=
  { inv with
    quiet := List.isEmpty_iff.mp
    own := by
      rw [inv.own, idle]
      rfl
    consumer := rfl }

omit [DecidableEq P] in
/-- While no producer is inside of `Enqueue`, the front without a link is the only node. -/
theorem Inv.alone {state : State P T} {queued : List (Node T)} (inv : Inv state queued)
    (quiet : state.quiet = true) (own : state.consumer.late = none)
    (unlinked : state.link state.tail = none) : queued = [] := by
  rcases inv.linked.front_unlinked unlinked with empty | ⟨next, rest, thread, _, late⟩
  · exact empty
  · cases thread with
    | none =>
        rw [inv.own, own] at late
        contradiction
    | some producer =>
        have absent : producer ∉ state.active := by
          rw [inv.quiet quiet]
          exact List.not_mem_nil
        rw [(inv.active producer absent).2] at late
        contradiction

omit [DecidableEq P] in
/-- `Dequeue` returns false. -/
theorem Inv.returnFalse {state : State P T} {queued : List (Node T)} (inv : Inv state queued)
    (own : state.consumer.late = none)
    (empty : state.quiet = true → state.returned.length = state.exchanged.length) :
    Inv (returnFalse state) queued :=
  { inv with
    own := inv.own.trans own
    consumer := trivial
    misses := by
      intro miss member
      rcases List.mem_append.mp member with old | last
      · exact inv.misses miss old
      · rw [List.mem_singleton.mp last]
        exact empty }

omit [DecidableEq P] in
/-- The front leaves the chain. -/
theorem Inv.front {state : State P T} {queued : List (Node T)} (inv : Inv state queued)
    {next : Node T} (stored : state.link state.tail = some next) :
    ∃ rest, queued = next :: rest ∧ Linked (next :: rest) state.link state.pending := by
  obtain ⟨first, popped⟩ := inv.linked.pop stored
  cases queued with
  | nil => contradiction
  | cons node rest =>
      cases first
      exact ⟨rest, rfl, popped⟩

omit [DecidableEq P] in
/-- What is `fresh` stays so for the nodes behind the front. -/
theorem Inv.fresh_behind {state : State P T} {queued : List (Node T)} (inv : Inv state queued)
    (producer : P) (value : T) (cleared : state.cleared producer = some value) :
    .object value ∉ queued ∧ state.link (.object value) = none := by
  obtain ⟨outside, unlinked⟩ := inv.fresh producer value cleared
  exact ⟨fun member => outside (List.mem_cons_of_mem _ member), unlinked⟩

omit [DecidableEq P] in
/-- `_tail` moves past the dummy. -/
theorem Inv.skip {state : State P T} {queued : List (Node T)} (inv : Inv state queued)
    {next : Node T} (position : state.consumer = .skip next) :
    ∃ rest, Inv { state with tail := next, consumer := .skipped next } rest := by
  have ok := inv.consumer
  rw [position] at ok
  rcases ok with ⟨front, stored⟩
  rw [← front] at stored
  obtain ⟨rest, rfl, popped⟩ := inv.front stored
  have values := inv.values
  have inside := inv.inside
  rw [front, objects_cons_dummy] at values inside
  have object : next ≠ .dummy := by
    intro dummy
    have once := (List.nodup_cons.mp inv.linked.nodup).1
    rw [front, ← dummy] at once
    exact once List.mem_cons_self
  exact ⟨rest,
    { inv with
      linked := popped
      head := inv.head
      values := values
      inside := inside
      fresh := inv.fresh_behind
      own := by
        rw [inv.own, position]
        rfl
      consumer := ⟨rfl, object⟩ }⟩

omit [DecidableEq P] in
/-- The front, an object, is returned. -/
theorem Inv.returnTail {state : State P T} {queued : List (Node T)} (inv : Inv state queued)
    {tail next : Node T} (position : state.consumer = .found tail next) :
    ∃ rest, Inv (returnTail state tail next) rest := by
  have ok := inv.consumer
  rw [position] at ok
  rcases ok with ⟨rfl, object, stored⟩
  obtain ⟨rest, rfl, popped⟩ := inv.front stored
  have outside := (List.nodup_cons.mp inv.linked.nodup).1
  have values := inv.values
  have inside := inv.inside
  rw [objects_cons_of_ne object] at values
  refine ⟨rest,
    { inv with
      linked := popped
      head := inv.head
      values := (List.append_assoc _ _ _).trans values
      inside := ?_
      fresh := inv.fresh_behind
      own := by
        rw [Intrusive.returnTail, inv.own, position]
        rfl
      consumer := trivial }⟩
  intro node
  change node ∈ state.inside.filter _ ↔ node ∈ objects (next :: rest) ∨ _
  rw [List.mem_filter, inside node, objects_cons_of_ne object, List.mem_cons]
  constructor
  · rintro ⟨(rfl | behind) | waiting, different⟩
    · simp at different
    · exact Or.inl behind
    · exact Or.inr waiting
  · rintro (behind | ⟨producer, value, cleared, rfl⟩)
    · refine ⟨Or.inl (Or.inr behind), ?_⟩
      have different : node ≠ state.tail := by
        rintro rfl
        exact outside (mem_objects.mp behind).1
      simpa using different
    · refine ⟨Or.inr ⟨producer, value, cleared, rfl⟩, ?_⟩
      have different : .object value ≠ state.tail := by
        intro same
        exact (inv.fresh producer value cleared).1 (same ▸ List.mem_cons_self)
      simpa using different

omit [DecidableEq P] in
/-- The link of the dummy is cleared while the dummy is outside of the chain. -/
theorem Inv.clearDummy {state : State P T} {queued : List (Node T)} (inv : Inv state queued)
    {tail : Node T} (position : state.consumer = .clearing tail) :
    Inv { clearLink state .dummy with consumer := .exchanging tail } queued := by
  have ok := inv.consumer
  rw [position] at ok
  rcases ok with ⟨rfl, object, outside⟩
  have unlinked : Function.update state.link .dummy none .dummy = none :=
    Function.update_self _ _ _
  have kept : ∀ node, node ≠ .dummy →
      Function.update state.link .dummy none node = state.link node :=
    fun node different => Function.update_of_ne different _ _
  exact
    { inv with
      linked := by
        apply inv.linked.congr
        rintro node member
        apply kept
        rintro rfl
        exact outside member
      fresh := fun producer value cleared =>
        ⟨(inv.fresh producer value cleared).1,
          (kept (.object value) nofun).trans (inv.fresh producer value cleared).2⟩
      own := by
        rw [clearLink, inv.own, position]
        rfl
      consumer := ⟨rfl, object, outside, unlinked⟩ }

/-- The dummy becomes the last node of the chain. -/
theorem Inv.exchangeDummy {state : State P T} {queued : List (Node T)} (inv : Inv state queued)
    {tail : Node T} (position : state.consumer = .exchanging tail) :
    Inv { exchangeHead state none .dummy with consumer := .storing tail state.head }
      (queued ++ [.dummy]) := by
  have ok := inv.consumer
  rw [position] at ok
  rcases ok with ⟨rfl, object, outside, unlinked⟩
  have ready : state.pending none = none := by
    rw [inv.own, position]
    rfl
  have same : objects (state.tail :: (queued ++ [.dummy])) = objects (state.tail :: queued) := by
    rw [← List.cons_append, objects_append, objects_singleton_dummy, List.append_nil]
  have others : ∀ producer, Function.update state.pending none (some (state.head, .dummy))
      (some producer) = state.pending (some producer) :=
    fun producer => Function.update_of_ne (Option.some_ne_none producer) _ _
  have own : Function.update state.pending none (some (state.head, .dummy)) none =
      some (state.head, .dummy) := Function.update_self _ _ _
  exact
    { inv with
      linked := inv.linked.append inv.head outside unlinked ready
      head := by
        rw [← List.cons_append]
        exact List.getLast?_concat
      values := by
        change state.returned ++ objects (state.tail :: (queued ++ [.dummy])) = _
        rw [same]
        exact inv.values
      inside := by
        change ∀ node, _ ↔ node ∈ objects (state.tail :: (queued ++ [.dummy])) ∨ _
        rw [same]
        exact inv.inside
      fresh := by
        intro producer value cleared
        refine ⟨fun member => ?_, (inv.fresh producer value cleared).2⟩
        change _ ∈ state.tail :: queued ++ [.dummy] at member
        rcases List.mem_append.mp member with old | last
        · exact (inv.fresh producer value cleared).1 old
        · cases List.mem_singleton.mp last
      active := fun producer absent =>
        ⟨(inv.active producer absent).1, (others producer).trans (inv.active producer absent).2⟩
      ready := fun producer cleared => (others producer).trans (inv.ready producer cleared)
      own := own
      consumer := ⟨rfl, object, by simp⟩ }

/-- The link to the dummy is stored. -/
theorem Inv.storeDummy {state : State P T} {queued : List (Node T)} (inv : Inv state queued)
    {tail prevHead : Node T} (position : state.consumer = .storing tail prevHead) :
    Inv { storeLink state none prevHead .dummy with consumer := .reload tail } queued := by
  have ok := inv.consumer
  rw [position] at ok
  rcases ok with ⟨rfl, object, behind⟩
  have late : state.pending none = some (prevHead, .dummy) := by
    rw [inv.own, position]
    rfl
  have there := (inv.linked.pending_adjacent none prevHead .dummy late).1.left_mem
  have others : ∀ producer, Function.update state.pending none none (some producer) =
      state.pending (some producer) :=
    fun producer => Function.update_of_ne (Option.some_ne_none producer) _ _
  have own : Function.update state.pending none none none = none := Function.update_self _ _ _
  exact
    { inv with
      linked := inv.linked.store late
      fresh := by
        intro producer value cleared
        obtain ⟨outside, before⟩ := inv.fresh producer value cleared
        refine ⟨outside, (Function.update_of_ne ?_ _ _).trans before⟩
        rintro rfl
        exact outside there
      active := fun producer absent =>
        ⟨(inv.active producer absent).1, (others producer).trans (inv.active producer absent).2⟩
      ready := fun producer cleared => (others producer).trans (inv.ready producer cleared)
      own := own
      consumer := ⟨rfl, object, behind⟩ }

/-- Every step of the consumer keeps the invariant. -/
theorem Inv.consume {state : State P T} {queued : List (Node T)} (inv : Inv state queued) :
    ∃ rest, Inv (consume state) rest := by
  have ok := inv.consumer
  cases position : state.consumer with
  | idle =>
      rw [Intrusive.consume, position]
      exact ⟨queued, inv.begin position⟩
  | gotTail tail =>
      rw [position] at ok
      cases ok
      have moves : ∀ {next : Consumer T}, next.late = none →
          ConsumerOk state.link state.quiet state.tail queued next →
          Inv { state with consumer := next } queued :=
        fun late ok => inv.move (by rw [position, late]; rfl) ok
      by_cases front : state.tail = .dummy
      · cases stored : state.link state.tail with
        | none =>
            simp only [Intrusive.consume, position, stored, if_pos front]
            refine ⟨queued, inv.returnFalse (by rw [position]; rfl) fun quiet => ?_⟩
            have alone := inv.alone quiet (by rw [position]; rfl) stored
            have values := congrArg List.length inv.values
            simpa [alone, front, objects] using values
        | some next =>
            simp only [Intrusive.consume, position, stored, if_pos front]
            rw [front] at stored
            exact ⟨queued, moves rfl ⟨front, stored⟩⟩
      · cases stored : state.link state.tail with
        | none =>
            simp only [Intrusive.consume, position, stored, if_neg front]
            exact ⟨queued, moves rfl ⟨rfl, front, fun _ => stored⟩⟩
        | some next =>
            simp only [Intrusive.consume, position, stored, if_neg front]
            exact ⟨queued, moves rfl ⟨rfl, front, stored⟩⟩
  | skip next =>
      rw [Intrusive.consume, position]
      exact inv.skip position
  | skipped tail =>
      rw [position] at ok
      rcases ok with ⟨rfl, object⟩
      cases stored : state.link state.tail with
      | none =>
          simp only [Intrusive.consume, position, stored]
          exact ⟨queued, inv.move (by rw [position]; rfl) ⟨rfl, object, fun _ => stored⟩⟩
      | some next =>
          simp only [Intrusive.consume, position, stored]
          exact ⟨queued, inv.move (by rw [position]; rfl) ⟨rfl, object, stored⟩⟩
  | found tail next =>
      rw [Intrusive.consume, position]
      exact inv.returnTail position
  | missing tail =>
      rw [position] at ok
      rcases ok with ⟨rfl, object, unlinked⟩
      by_cases last : state.tail = state.head
      · simp only [Intrusive.consume, position, if_pos last]
        have ends := inv.head
        rw [← last] at ends
        have alone := queued_of_front_last inv.linked.nodup ends
        refine ⟨queued, inv.move (by rw [position]; rfl) ⟨rfl, object, ?_⟩⟩
        rw [alone, List.mem_singleton]
        exact Ne.symm object
      · simp only [Intrusive.consume, position, if_neg last]
        refine ⟨queued, inv.returnFalse (by rw [position]; rfl) fun quiet => ?_⟩
        -- A quiet call has seen the only node, and that is the last one.
        have alone := inv.alone quiet (by rw [position]; rfl) (unlinked quiet)
        have ends := inv.head
        rw [alone] at ends
        exact absurd (Option.some.inj ends) last
  | clearing tail =>
      rw [Intrusive.consume, position]
      exact ⟨queued, inv.clearDummy position⟩
  | exchanging tail =>
      rw [Intrusive.consume, position]
      exact ⟨_, inv.exchangeDummy position⟩
  | storing tail prevHead =>
      rw [Intrusive.consume, position]
      exact ⟨queued, inv.storeDummy position⟩
  | reload tail =>
      rw [position] at ok
      rcases ok with ⟨rfl, object, behind⟩
      cases stored : state.link state.tail with
      | none =>
          simp only [Intrusive.consume, position, stored]
          refine ⟨queued, inv.returnFalse (by rw [position]; rfl) fun quiet => ?_⟩
          exact absurd (inv.alone quiet (by rw [position]; rfl) stored) behind
      | some next =>
          simp only [Intrusive.consume, position, stored]
          exact ⟨queued, inv.move (by rw [position]; rfl) ⟨rfl, object, stored⟩⟩

/-! ## Runs -/

/-- Every step of every thread keeps the invariant. -/
theorem step_inv {state next : State P T} {act : Action P T}
    (inv : ∃ queued, Inv state queued) (stepped : step state act = some next) :
    ∃ queued, Inv next queued := by
  rcases inv with ⟨queued, inv⟩
  cases act with
  | enqueue producer input =>
      simp only [step, Option.ite_none_right_eq_some, Option.some.injEq] at stepped
      rcases stepped with ⟨⟨free, waiting, new⟩, rfl⟩
      exact ⟨queued, inv.enqueue free waiting new⟩
  | exchange producer =>
      simp only [step, Option.map_eq_some_iff] at stepped
      obtain ⟨input, found, rfl⟩ := stepped
      exact ⟨_, inv.exchange found⟩
  | store producer =>
      simp only [step, Option.map_eq_some_iff] at stepped
      obtain ⟨⟨prevHead, input⟩, late, rfl⟩ := stepped
      exact ⟨queued, inv.store late⟩
  | consume =>
      cases stepped
      exact inv.consume

/-- What is promised about the queue in every state. -/
structure Safe (state : State P T) : Prop where
  /-- The objects returned are the first ones in the order of the exchanges; the dummy is
  none of them. -/
  order : state.returned <+: state.exchanged.map .object
  /-- The dummy stands at most once in the chain from `_tail` to `_head`. -/
  dummy : ∃ chain, chain.head? = some state.tail ∧ chain.getLast? = some state.head ∧
    Linked chain state.link state.pending ∧ chain.count .dummy ≤ 1
  /-- No thread is about to store to the link of an object that has been returned and not
  been enqueued again. -/
  freed : ∀ value, .object value ∉ state.inside → ∀ thread input,
    state.pending thread ≠ some (.object value, input)
  /-- A `Dequeue` during which no producer was inside of `Enqueue` returns false only when
  every object has been returned. -/
  misses : ∀ miss ∈ state.misses, miss.quiet = true → miss.returned = miss.exchanged

omit [DecidableEq P] in
theorem Inv.safe {state : State P T} {queued : List (Node T)} (inv : Inv state queued) :
    Safe state where
  order := ⟨objects (state.tail :: queued), inv.values⟩
  dummy := ⟨state.tail :: queued, rfl, inv.head, inv.linked,
    List.nodup_iff_count_le_one.mp inv.linked.nodup .dummy⟩
  freed := by
    intro value freed thread input late
    exact inv.outside freed (inv.linked.pending_adjacent thread _ input late).1.left_mem
  misses := inv.misses

/-- Whatever the producers, the objects and the interleaving, the queue is safe in every
state of every run. -/
theorem run_intrusive_safe (links : Node T → Option (Node T)) {acts : List (Action P T)}
    {state : State P T} (run : exec step (start links) acts = some state) : Safe state := by
  have preserved : ∀ ⦃state act next⦄, (∃ queued, Inv (P := P) (T := T) state queued) →
      step state act = some next → ∃ queued, Inv next queued :=
    fun _ _ _ => step_inv
  obtain ⟨queued, inv⟩ := invariant_exec preserved ⟨[], start_inv links⟩ run
  exact inv.safe

/-- A producer appends between the test of `_head` and the exchange of the dummy, and the
object that is returned is enqueued again. -/
def lateDummy : List (Action Bool Nat) :=
  [.enqueue false 5, .exchange false, .store false, .consume, .consume, .consume, .consume,
    .consume, .enqueue true 6, .exchange true, .consume, .consume, .consume, .store true,
    .consume, .consume, .enqueue true 5, .exchange true]

/-- The safety theorem at this run. -/
theorem lateDummy_safe :
    ∃ state, exec step (start fun _ => none) lateDummy = some state ∧
      state.returned = [.object 5] ∧ state.exchanged = [5, 6, 5] ∧ Safe state := by
  have run : ∃ state, exec step (start fun _ => none) lateDummy = some state ∧
      state.returned = [.object 5] ∧ state.exchanged = [5, 6, 5] := ⟨_, rfl, rfl, rfl⟩
  obtain ⟨state, returned, values, exchanged⟩ := run
  exact ⟨state, returned, values, exchanged, run_intrusive_safe _ returned⟩

end Cncpp.Queue.Intrusive

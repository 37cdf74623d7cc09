import Cncpp.ConnPool.Ledger
import Cncpp.Transition.Run

/-!
# Scoped handles

`MyScopedConn` grabs a connection when it is constructed and releases it when it
is destroyed.  Its move constructor is the default one, and `connection_` is a
`CONN* const`, so moving copies the pointer: the handle that was moved from still
releases the connection in its destructor.

The handles of all clients are kept in one list, and an action names a handle by
its position.  `safe_grab` runs in several sections, between which other handles
act.
-/

namespace Cncpp.ConnPool.ScopedConn

open Cncpp.Transition

variable {Conn : Type}

/-- A living `MyScopedConn`. -/
structure MyScopedConn (Conn : Type) where
  connection : Conn
  /-- History: which grab the connection comes from. -/
  grabbed : Nat
  /-- History: another handle was move-constructed from this one. -/
  movedFrom : Bool
  deriving DecidableEq

/-- The pool, the living handles and what has happened to them. -/
structure State (Conn : Type) where
  pool : MyConnPool Conn
  handles : List (MyScopedConn Conn)
  /-- Connections that `safe_grab` has grabbed and not yet returned. -/
  examining : List Conn
  /-- History: the number of grabs that handles were constructed with. -/
  grabs : Nat
  /-- History: the grabs whose connection a destructor has released. -/
  released : List Nat
  deriving DecidableEq

/-- The steps.  The outcome of `create` is given as for `grab`. -/
inductive Action (Conn : Type) where
  | construct (now : Int) (creation : Option (Conn × Int))
  | safeGrab (now : Int) (creation : Option (Conn × Int))
  | accept (conn : Conn)
  | reject (conn : Conn)
  | moveConstruct (source : Nat)
  | destroy (index : Nat) (now : Int)

/-- No handle and no connection. -/
def start : State Conn :=
  ⟨MyConnPool.empty, [], [], 0, []⟩

/-- A new handle for a connection that was grabbed. -/
def State.hold (state : State Conn) (conn : Conn) : State Conn :=
  { state with
    handles := state.handles ++ [⟨conn, state.grabs, false⟩]
    grabs := state.grabs + 1 }

/-- One step. -/
def step [DecidableEq Conn] : Step (State Conn) (Action Conn)
  | state, .construct now creation =>
      if state.pool.NewFor creation then
        match state.pool.grab now creation with
        | (some conn, after) => some ({ state with pool := after }.hold conn)
        | (none, after) => some { state with pool := after }
      else none
  | state, .safeGrab now creation =>
      if state.pool.NewFor creation then
        match state.pool.grab now creation with
        | (some conn, after) =>
            some { state with pool := after, examining := conn :: state.examining }
        | (none, after) => some { state with pool := after }
      else none
  | state, .accept conn =>
      if conn ∈ state.examining then
        some ({ state with examining := state.examining.erase conn }.hold conn)
      else none
  | state, .reject conn =>
      if conn ∈ state.examining then
        some { state with
          pool := state.pool.remove conn
          examining := state.examining.erase conn }
      else none
  | state, .moveConstruct source =>
      (state.handles[source]?).map fun handle =>
        { state with
          handles := state.handles.set source { handle with movedFrom := true } ++
            [{ handle with movedFrom := false }] }
  | state, .destroy index now =>
      (state.handles[index]?).map fun handle =>
        { state with
          pool := state.pool.release handle.connection now
          handles := state.handles.eraseIdx index
          released := state.released ++ [handle.grabbed] }

/-- The handles that own their connection. -/
def owners (handles : List (MyScopedConn Conn)) : List (MyScopedConn Conn) :=
  handles.filter fun handle => !handle.movedFrom

/-- What is expected of the handles. -/
structure Safe (state : State Conn) : Prop where
  /-- No grab is released twice. -/
  once : state.released.Nodup
  /-- No grab is released while a handle owns it. -/
  last : ∀ handle ∈ owners state.handles, handle.grabbed ∉ state.released
  /-- A grab that no handle owns any more has been released. -/
  returned : ∀ number < state.grabs, number ∈ state.released ∨
    ∃ handle ∈ owners state.handles, handle.grabbed = number
  /-- No two owners have the same connection. -/
  single : ((owners state.handles).map MyScopedConn.connection).Nodup

/-- No handle that has been moved from is moved from again or destroyed. -/
def Keeps (state : State Conn) : Action Conn → Prop
  | .moveConstruct source => ∀ handle ∈ state.handles[source]?, handle.movedFrom = false
  | .destroy index _ => ∀ handle ∈ state.handles[index]?, handle.movedFrom = false
  | _ => True

/-- The lent connections: those of the owners and those being examined. -/
def lent (state : State Conn) : List Conn :=
  ((owners state.handles).map MyScopedConn.connection) ++ state.examining

/-- Where the grabs of the handles are. -/
structure Traced (state : State Conn) : Prop where
  /-- Every owner has its own grab. -/
  distinct : ((owners state.handles).map MyScopedConn.grabbed).Nodup
  handles : ∀ handle ∈ state.handles, handle.grabbed < state.grabs
  released : ∀ number ∈ state.released, number < state.grabs
  /-- The grab of every handle is released or has an owner. -/
  owned : ∀ handle ∈ state.handles, handle.grabbed ∈ state.released ∨
    ∃ owner ∈ owners state.handles,
      owner.grabbed = handle.grabbed ∧ owner.connection = handle.connection

/-- Everything that holds as long as the handles are safe. -/
structure Inv (state : State Conn) : Prop where
  safe : Safe state
  traced : Traced state
  ledger : state.pool.Ledger (lent state)

theorem start_inv : Inv (start : State Conn) where
  safe :=
    { once := List.nodup_nil
      last := by simp [start, owners]
      returned := by simp [start]
      single := List.nodup_nil }
  traced :=
    { distinct := List.nodup_nil
      handles := by simp [start]
      released := by simp [start]
      owned := by simp [start] }
  ledger := MyConnPool.empty_ledger

/-! ## Owners -/

theorem mem_owners {handles : List (MyScopedConn Conn)} {handle : MyScopedConn Conn} :
    handle ∈ owners handles ↔ handle ∈ handles ∧ handle.movedFrom = false := by
  simp [owners]

theorem owners_perm {first second : List (MyScopedConn Conn)} (perm : first.Perm second) :
    (owners first).Perm (owners second) :=
  perm.filter _

theorem owners_cons (handle : MyScopedConn Conn) (rest : List (MyScopedConn Conn)) :
    owners (handle :: rest) = if handle.movedFrom then owners rest else handle :: owners rest := by
  cases moved : handle.movedFrom <;> simp [owners, moved]

/-- A handle and the others. -/
theorem perm_cons_eraseIdx {handles : List (MyScopedConn Conn)} {index : Nat}
    {handle : MyScopedConn Conn} (found : handles[index]? = some handle) :
    handles.Perm (handle :: handles.eraseIdx index) := by
  obtain ⟨inside, rfl⟩ := List.getElem?_eq_some_iff.mp found
  exact (List.getElem_cons_eraseIdx_perm inside).symm

/-- The owners after moving from a handle: its successor and the other owners. -/
theorem owners_move {handles : List (MyScopedConn Conn)} {source : Nat}
    {handle : MyScopedConn Conn} (found : handles[source]? = some handle) :
    (owners (handles.set source { handle with movedFrom := true } ++
      [{ handle with movedFrom := false }])).Perm
        ({ handle with movedFrom := false } :: owners (handles.eraseIdx source)) := by
  obtain ⟨inside, _⟩ := List.getElem?_eq_some_iff.mp found
  have replaced := List.set_perm_cons_eraseIdx inside { handle with movedFrom := true }
  have rotated := (List.perm_append_singleton { handle with movedFrom := false }
    (handles.set source { handle with movedFrom := true })).trans (replaced.cons _)
  have perm := owners_perm rotated
  rw [owners_cons, owners_cons] at perm
  exact perm

/-! ## Steps that keep the handles safe -/

/-- A handle for a connection that is lent and belongs to nobody yet. -/
theorem hold_inv {state : State Conn} {conn : Conn} (safe : Safe state) (traced : Traced state)
    (ledger : state.pool.Ledger (conn :: lent state)) : Inv (state.hold conn) := by
  let handle : MyScopedConn Conn := ⟨conn, state.grabs, false⟩
  have appended : owners (state.hold conn).handles = owners state.handles ++ [handle] := by
    simp [owners, State.hold, handle]
  have perm : (owners (state.hold conn).handles).Perm (handle :: owners state.handles) := by
    rw [appended]
    exact List.perm_append_singleton handle _
  have newGrab : ∀ other ∈ owners state.handles, other.grabbed ≠ state.grabs := by
    intro other member
    exact Nat.ne_of_lt (traced.handles other (mem_owners.mp member).1)
  constructor
  · constructor
    · exact safe.once
    · intro other member released
      rcases List.mem_cons.mp (perm.mem_iff.mp member) with rfl | old
      · exact Nat.lt_irrefl _ (traced.released _ released)
      · exact safe.last other old released
    · intro number below
      rcases Nat.lt_succ_iff_lt_or_eq.mp below with old | rfl
      · rcases safe.returned number old with released | ⟨owner, member, same⟩
        · exact Or.inl released
        · exact Or.inr ⟨owner, perm.mem_iff.mpr (List.mem_cons_of_mem _ member), same⟩
      · exact Or.inr ⟨handle, perm.mem_iff.mpr List.mem_cons_self, rfl⟩
    · apply (perm.map _).nodup_iff.mpr
      rcases List.nodup_cons.mp ledger.lent_nodup with ⟨new, _⟩
      exact List.nodup_cons.mpr ⟨fun member => new (List.mem_append_left _ member), safe.single⟩
  · constructor
    · apply (perm.map _).nodup_iff.mpr
      refine List.nodup_cons.mpr ⟨fun member => ?_, traced.distinct⟩
      obtain ⟨other, inside, same⟩ := List.mem_map.mp member
      exact newGrab other inside same
    · intro other member
      rcases List.mem_append.mp member with old | new
      · exact Nat.lt_succ_of_lt (traced.handles other old)
      · rw [List.mem_singleton.mp new]
        exact Nat.lt_succ_self _
    · intro number released
      exact Nat.lt_succ_of_lt (traced.released number released)
    · intro other member
      rcases List.mem_append.mp member with old | new
      · rcases traced.owned other old with released | ⟨owner, inside, same⟩
        · exact Or.inl released
        · exact Or.inr ⟨owner, perm.mem_iff.mpr (List.mem_cons_of_mem _ inside), same⟩
      · rw [List.mem_singleton.mp new]
        exact Or.inr ⟨handle, perm.mem_iff.mpr List.mem_cons_self, rfl, rfl⟩
  · have moved : (lent (state.hold conn)).Perm (conn :: lent state) :=
      (perm.map MyScopedConn.connection).append_right state.examining
    exact ledger.perm moved.symm

/-- Moving from an owner: the successor takes its place. -/
theorem move_inv {state : State Conn} (inv : Inv state) {source : Nat}
    {handle : MyScopedConn Conn} (found : state.handles[source]? = some handle)
    (owner : handle.movedFrom = false) :
    Inv { state with
      handles := state.handles.set source { handle with movedFrom := true } ++
        [{ handle with movedFrom := false }] } := by
  have self : { handle with movedFrom := false } = handle := by
    rw [← owner]
  have before := owners_perm (perm_cons_eraseIdx found)
  rw [owners_cons, owner, if_neg Bool.false_ne_true] at before
  have perm := owners_move found
  rw [self] at perm
  have perm := perm.trans before.symm
  have copies : ∀ other ∈ state.handles.set source { handle with movedFrom := true } ++
      [{ handle with movedFrom := false }], ∃ old ∈ state.handles,
        old.grabbed = other.grabbed ∧ old.connection = other.connection := by
    intro other member
    have there := List.mem_of_getElem? found
    rcases List.mem_append.mp member with inside | last
    · rcases List.mem_or_eq_of_mem_set inside with old | rfl
      · exact ⟨other, old, rfl, rfl⟩
      · exact ⟨handle, there, rfl, rfl⟩
    · rw [List.mem_singleton.mp last]
      exact ⟨handle, there, rfl, rfl⟩
  rw [self] at copies ⊢
  constructor
  · constructor
    · exact inv.safe.once
    · intro other member
      exact inv.safe.last other (perm.mem_iff.mp member)
    · intro number below
      rcases inv.safe.returned number below with released | ⟨other, member, same⟩
      · exact Or.inl released
      · exact Or.inr ⟨other, perm.mem_iff.mpr member, same⟩
    · exact (perm.map _).nodup_iff.mpr inv.safe.single
  · constructor
    · exact (perm.map _).nodup_iff.mpr inv.traced.distinct
    · intro other member
      obtain ⟨old, inside, same, _⟩ := copies other member
      rw [← same]
      exact inv.traced.handles old inside
    · exact inv.traced.released
    · intro other member
      obtain ⟨old, inside, sameGrab, sameConn⟩ := copies other member
      rw [← sameGrab, ← sameConn]
      rcases inv.traced.owned old inside with released | ⟨owns, there, equal⟩
      · exact Or.inl released
      · exact Or.inr ⟨owns, perm.mem_iff.mpr there, equal⟩
  · exact inv.ledger.perm ((perm.map _).append_right state.examining).symm

/-- Destroying an owner releases its grab. -/
theorem destroy_inv [DecidableEq Conn] {state : State Conn} (inv : Inv state) {index : Nat}
    {handle : MyScopedConn Conn} (found : state.handles[index]? = some handle)
    (owner : handle.movedFrom = false) (now : Int) :
    Inv { state with
      pool := state.pool.release handle.connection now
      handles := state.handles.eraseIdx index
      released := state.released ++ [handle.grabbed] } := by
  have perm := owners_perm (perm_cons_eraseIdx found)
  rw [owners_cons, owner, if_neg Bool.false_ne_true] at perm
  have itself : handle ∈ owners state.handles := perm.mem_iff.mpr List.mem_cons_self
  have distinct := (perm.map MyScopedConn.grabbed).nodup_iff.mp inv.traced.distinct
  have others : ∀ other ∈ owners (state.handles.eraseIdx index),
      other ∈ owners state.handles ∧ other.grabbed ≠ handle.grabbed := by
    intro other member
    refine ⟨perm.mem_iff.mpr (List.mem_cons_of_mem _ member), fun same => ?_⟩
    exact (List.nodup_cons.mp distinct).1 (List.mem_map.mpr ⟨other, member, same⟩)
  have kept : ∀ other ∈ owners state.handles, other.grabbed = handle.grabbed ∨
      other ∈ owners (state.handles.eraseIdx index) := by
    intro other member
    rcases List.mem_cons.mp (perm.mem_iff.mp member) with rfl | later
    · exact Or.inl rfl
    · exact Or.inr later
  have here : handle.grabbed ∈ state.released ++ [handle.grabbed] :=
    List.mem_append_right _ (List.mem_singleton_self _)
  have remaining : ∀ other ∈ state.handles.eraseIdx index, other ∈ state.handles :=
    fun other member => List.mem_of_mem_eraseIdx member
  constructor
  · constructor
    · apply (List.perm_append_singleton _ _).nodup_iff.mpr
      exact List.nodup_cons.mpr ⟨inv.safe.last handle itself, inv.safe.once⟩
    · intro other member released
      obtain ⟨old, different⟩ := others other member
      rcases List.mem_append.mp released with before | last
      · exact inv.safe.last other old before
      · exact different (List.mem_singleton.mp last)
    · intro number below
      rcases inv.safe.returned number below with released | ⟨other, member, rfl⟩
      · exact Or.inl (List.mem_append_left _ released)
      · rcases kept other member with same | later
        · rw [same]
          exact Or.inl here
        · exact Or.inr ⟨other, later, rfl⟩
    · have single := (perm.map MyScopedConn.connection).nodup_iff.mp inv.safe.single
      exact (List.nodup_cons.mp single).2
  · constructor
    · exact (List.nodup_cons.mp distinct).2
    · intro other member
      exact inv.traced.handles other (remaining other member)
    · intro number released
      rcases List.mem_append.mp released with before | last
      · exact inv.traced.released number before
      · rw [List.mem_singleton.mp last]
        exact inv.traced.handles handle (mem_owners.mp itself).1
    · intro other member
      rcases inv.traced.owned other (remaining other member) with released | ⟨owns, inside, equal⟩
      · exact Or.inl (List.mem_append_left _ released)
      · rcases kept owns inside with same | later
        · rw [← equal.1, same]
          exact Or.inl here
        · exact Or.inr ⟨owns, later, equal⟩
  · have returned : (lent state).Perm (handle.connection ::
        (((owners (state.handles.eraseIdx index)).map MyScopedConn.connection) ++
          state.examining)) :=
      (perm.map MyScopedConn.connection).append_right state.examining
    exact (inv.ledger.perm returned).release now

/-! ## Steps that do not -/

/-- Moving from a handle that has been moved from makes a second owner. -/
theorem move_not_safe {state : State Conn} (inv : Inv state) {source : Nat}
    {handle : MyScopedConn Conn} (found : state.handles[source]? = some handle)
    (moved : handle.movedFrom = true) :
    ¬ Safe { state with
      handles := state.handles.set source { handle with movedFrom := true } ++
        [{ handle with movedFrom := false }] } := by
  intro safe
  have perm := owners_move found
  have others := owners_perm (perm_cons_eraseIdx found)
  rw [owners_cons, moved, if_pos rfl] at others
  have perm := perm.trans (others.symm.cons _)
  rcases inv.traced.owned handle (List.mem_of_getElem? found) with released | ⟨owner, inside, same⟩
  · exact safe.last _ (perm.mem_iff.mpr List.mem_cons_self) released
  · have single := (perm.map MyScopedConn.connection).nodup_iff.mp safe.single
    exact (List.nodup_cons.mp single).1 (List.mem_map.mpr ⟨owner, inside, same.2⟩)

/-- Destroying a handle that has been moved from releases a grab that has an owner
or was released before. -/
theorem destroy_not_safe [DecidableEq Conn] {state : State Conn} (inv : Inv state) {index : Nat}
    {handle : MyScopedConn Conn} (found : state.handles[index]? = some handle)
    (moved : handle.movedFrom = true) (now : Int) :
    ¬ Safe { state with
      pool := state.pool.release handle.connection now
      handles := state.handles.eraseIdx index
      released := state.released ++ [handle.grabbed] } := by
  intro safe
  have perm := owners_perm (perm_cons_eraseIdx found)
  rw [owners_cons, moved, if_pos rfl] at perm
  rcases inv.traced.owned handle (List.mem_of_getElem? found) with released | ⟨owner, inside, same⟩
  · have once := (List.perm_append_singleton handle.grabbed state.released).nodup_iff.mp safe.once
    exact (List.nodup_cons.mp once).1 released
  · apply safe.last owner (perm.mem_iff.mp inside)
    rw [same.1]
    exact List.mem_append_right _ (List.mem_singleton_self _)

/-! ## Runs -/

theorem Safe.transfer {state : State Conn} (safe : Safe state) (pool : MyConnPool Conn)
    (examining : List Conn) : Safe { state with pool := pool, examining := examining } :=
  ⟨safe.once, safe.last, safe.returned, safe.single⟩

theorem Traced.transfer {state : State Conn} (traced : Traced state) (pool : MyConnPool Conn)
    (examining : List Conn) : Traced { state with pool := pool, examining := examining } :=
  ⟨traced.distinct, traced.handles, traced.released, traced.owned⟩

/-- The pool and the examined connections change together. -/
theorem Inv.transfer {state : State Conn} (inv : Inv state) {pool : MyConnPool Conn}
    {examining : List Conn}
    (ledger : pool.Ledger ((owners state.handles).map MyScopedConn.connection ++ examining)) :
    Inv { state with pool := pool, examining := examining } :=
  ⟨inv.safe.transfer pool examining, inv.traced.transfer pool examining, ledger⟩

/-- A handle for a connection that leaves the pool or the examination. -/
theorem Inv.hold {state : State Conn} (inv : Inv state) {pool : MyConnPool Conn}
    {examining : List Conn} {conn : Conn}
    (ledger : pool.Ledger
      (conn :: ((owners state.handles).map MyScopedConn.connection ++ examining))) :
    Inv ({ state with pool := pool, examining := examining }.hold conn) :=
  hold_inv (inv.safe.transfer pool examining) (inv.traced.transfer pool examining) ledger

variable [DecidableEq Conn]

/-- The lent connections without one that is examined. -/
theorem lent_perm_erase {state : State Conn} {conn : Conn} (member : conn ∈ state.examining) :
    (lent state).Perm (conn :: ((owners state.handles).map MyScopedConn.connection ++
      state.examining.erase conn)) :=
  ((List.perm_cons_erase member).append_left _).trans List.perm_middle

omit [DecidableEq Conn] in
/-- A change that keeps the invariant for a handle that owns its connection, and that is not
safe for one that has been moved from. -/
theorem safe_iff_of_movedFrom {after : State Conn} {handle : MyScopedConn Conn}
    (owner : handle.movedFrom = false → Inv after)
    (moved : handle.movedFrom = true → ¬ Safe after) :
    (Safe after → Inv after) ∧ (Safe after ↔ handle.movedFrom = false) := by
  cases movedFrom : handle.movedFrom with
  | false =>
      have kept := owner movedFrom
      exact ⟨fun _ => kept, iff_of_true kept.safe rfl⟩
  | true =>
      have lost := moved movedFrom
      exact ⟨fun safe => absurd safe lost, iff_of_false lost nofun⟩

/-- A step keeps the handles safe exactly when it satisfies `Keeps`. -/
theorem step_safe_iff {state next : State Conn} {act : Action Conn} (inv : Inv state)
    (stepped : step state act = some next) :
    (Safe next → Inv next) ∧ (Safe next ↔ Keeps state act) := by
  have always : ∀ {after : State Conn}, Inv after →
      (Safe after → Inv after) ∧ (Safe after ↔ True) :=
    fun kept => ⟨fun _ => kept, iff_true_intro kept.safe⟩
  cases act with
  | construct now creation =>
      simp only [step, Option.ite_none_right_eq_some] at stepped
      rcases stepped with ⟨new, stepped⟩
      rcases inv.ledger.grab now new with ⟨conn, after, result, ledger⟩ | ⟨_, result⟩
      · rw [result] at stepped
        cases stepped
        exact always (inv.hold ledger)
      · rw [result] at stepped
        cases stepped
        exact always (inv.transfer (inv.ledger.removeOldConnections now))
  | safeGrab now creation =>
      simp only [step, Option.ite_none_right_eq_some] at stepped
      rcases stepped with ⟨new, stepped⟩
      rcases inv.ledger.grab now new with ⟨conn, after, result, ledger⟩ | ⟨_, result⟩
      · rw [result] at stepped
        cases stepped
        exact always (inv.transfer (ledger.perm List.perm_middle.symm))
      · rw [result] at stepped
        cases stepped
        exact always (inv.transfer (inv.ledger.removeOldConnections now))
  | accept conn =>
      simp only [step, Option.ite_none_right_eq_some, Option.some.injEq] at stepped
      rcases stepped with ⟨member, rfl⟩
      exact always (inv.hold (inv.ledger.perm (lent_perm_erase member)))
  | reject conn =>
      simp only [step, Option.ite_none_right_eq_some, Option.some.injEq] at stepped
      rcases stepped with ⟨member, rfl⟩
      exact always (inv.transfer (inv.ledger.perm (lent_perm_erase member)).remove)
  | moveConstruct source =>
      simp only [step, Option.map_eq_some_iff] at stepped
      rcases stepped with ⟨handle, found, rfl⟩
      have keeps : Keeps state (.moveConstruct source) ↔ handle.movedFrom = false := by
        simp [Keeps, found]
      rw [keeps]
      exact safe_iff_of_movedFrom (move_inv inv found) (move_not_safe inv found)
  | destroy index now =>
      simp only [step, Option.map_eq_some_iff] at stepped
      rcases stepped with ⟨handle, found, rfl⟩
      have keeps : Keeps state (.destroy index now) ↔ handle.movedFrom = false := by
        simp [Keeps, found]
      rw [keeps]
      exact safe_iff_of_movedFrom (fun owner => destroy_inv inv found owner now)
        fun moved => destroy_not_safe inv found moved now

/-- In every run the handles are safe in all states exactly when no handle that has
been moved from is moved from again or destroyed. -/
theorem run_safe_iff_keeps {acts : List (Action Conn)} {final : State Conn}
    (run : exec step start acts = some final) :
    Throughout step Safe start acts ↔ Along step Keeps start acts := by
  have exactStep : ∀ ⦃state : State Conn⦄ ⦃act next⦄, (Safe state → Inv state) → Safe state →
      step state act = some next → (Safe next → Inv next) ∧ (Safe next ↔ Keeps state act) :=
    fun _ _ _ inv safe stepped => step_safe_iff (inv safe) stepped
  exact throughout_iff_along exactStep (fun _ => start_inv) start_inv.safe run

/-- Two handles, one of them moved; both owners are destroyed. -/
def movedOnce : List (Action Nat) :=
  [.construct 0 (some (1, 0)), .construct 1 (some (2, 1)), .moveConstruct 0, .destroy 2 5,
    .destroy 1 6]

/-- The handle theorem at this run. -/
theorem movedOnce_safe :
    ∃ final, exec step start movedOnce = some final ∧ final.released = [0, 1] ∧
      Throughout step Safe start movedOnce := by
  have run : ∃ final, exec step start movedOnce = some final ∧ final.released = [0, 1] :=
    ⟨_, rfl, rfl⟩
  obtain ⟨final, returned, released⟩ := run
  refine ⟨final, returned, released, (run_safe_iff_keeps returned).mpr ?_⟩
  refine (along_cons_iff rfl _).mpr ⟨trivial, (along_cons_iff rfl _).mpr ⟨trivial, ?_⟩⟩
  refine (along_cons_iff rfl _).mpr ⟨by rintro handle ⟨⟩; rfl, ?_⟩
  refine (along_cons_iff rfl _).mpr ⟨by rintro handle ⟨⟩; rfl, ?_⟩
  exact (along_cons_iff rfl _).mpr ⟨by rintro handle ⟨⟩; rfl, trivial⟩

/-- A handle is moved, both it and its successor are destroyed, and in between another
client has grabbed the connection. -/
def doubleRelease : List (Action Nat) :=
  [.construct 0 (some (1, 0)), .moveConstruct 0, .destroy 0 5, .construct 6 none, .destroy 0 7]

/-- The first grab has been released twice, and the connection of the remaining handle
is no longer marked as in use. -/
theorem doubleRelease_not_safe :
    ∃ final, exec step start doubleRelease = some final ∧ final.released = [0, 0] ∧
      final.handles = [⟨1, 1, false⟩] ∧ final.pool.pool = [⟨1, 7, false⟩] ∧ ¬ Safe final :=
  ⟨_, rfl, rfl, rfl, rfl, fun safe => absurd safe.once (by decide)⟩

end Cncpp.ConnPool.ScopedConn

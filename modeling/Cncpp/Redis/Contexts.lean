import Cncpp.Account.Slots
import Cncpp.Redis.Placement
import Cncpp.Transition.Observe

/-!
# What becomes of the contexts

Every context that `redisConnect` returns is numbered, and a ledger beside the objects tells
which object points to which context, which contexts have been passed to `redisFree`, and to
which no pointer is left although they have not been freed.

Destroying an object and assigning to it free its context.  `connect` overwrites the pointer
without freeing the context it points to, and a constructor that throws leaves no object whose
destructor could free what it has opened.
-/

namespace Cncpp.Redis

open Cncpp.Account
open Cncpp.Transition

/-- The contexts by their numbers. -/
structure Ledger where
  /-- `context_` of the living objects, in their order. -/
  contexts : List (Option Nat)
  /-- History: how many contexts have been opened. -/
  opened : Nat
  /-- History: the contexts passed to `redisFree`. -/
  freed : List Nat
  /-- History: the contexts to which the last pointer was overwritten or destroyed. -/
  dropped : List Nat
  deriving DecidableEq

namespace Ledger

/-- No object. -/
def start : Ledger :=
  ⟨[], 0, [], []⟩

/-- `context_` of an object. -/
def context (ledger : Ledger) (index : Nat) : Option Nat :=
  (ledger.contexts[index]?).join

/-- `redisConnect`: the pointer it returns. -/
def redisConnect (ledger : Ledger) : Opening → Option Nat × Ledger
  | .unallocated => (none, ledger)
  | _ => (some ledger.opened, { ledger with opened := ledger.opened + 1 })

/-- `redisFree`, where the pointer is not null. -/
def redisFree (ledger : Ledger) (pointer : Option Nat) : Ledger :=
  { ledger with freed := ledger.freed ++ pointer.toList }

/-- The pointer goes out of scope. -/
def drop (ledger : Ledger) (pointer : Option Nat) : Ledger :=
  { ledger with dropped := ledger.dropped ++ pointer.toList }

/-- An assignment to `context_` of an object. -/
def assign (ledger : Ledger) (index : Nat) (pointer : Option Nat) : Ledger :=
  { ledger with contexts := ledger.contexts.set index pointer }

/-- A new object. -/
def create (ledger : Ledger) (pointer : Option Nat) : Ledger :=
  { ledger with contexts := ledger.contexts ++ [pointer] }

/-- The storage of an object is released. -/
def erase (ledger : Ledger) (index : Nat) : Ledger :=
  { ledger with contexts := ledger.contexts.eraseIdx index }

/-- The assignment in `connect`. -/
def connect (ledger : Ledger) (index : Nat) (opening : Opening) : Ledger :=
  let (pointer, ledger) := ledger.redisConnect opening
  (ledger.assign index pointer).drop (ledger.context index)

/-- A constructor that opens a context and then returns or throws. -/
def construct (ledger : Ledger) (opening : Opening) (returns : Bool) : Ledger :=
  let (pointer, ledger) := ledger.redisConnect opening
  if returns then ledger.create pointer else ledger.drop pointer

/-- The move constructor. -/
def moveConstruct (ledger : Ledger) (source : Nat) : Ledger :=
  (ledger.assign source none).create (ledger.context source)

/-- The move assignment between two objects. -/
def moveAssign (ledger : Ledger) (target source : Nat) : Ledger :=
  ((ledger.redisFree (ledger.context target)).assign target (ledger.context source)).assign
    source none

/-- The destructor. -/
def destroy (ledger : Ledger) (index : Nat) : Ledger :=
  (ledger.redisFree (ledger.context index)).erase index

/-- `checkConnection`. -/
def checkConnection (ledger : Ledger) (conn : RedisConn) (index : Nat) (opening : Opening) :
    Ledger :=
  if conn.isConnected then ledger else ledger.connect index opening

end Ledger

/-- The ledger after an action. -/
def track (state : State) (ledger : Ledger) : Action → Ledger
  | .construct cfg opening selecting =>
      ledger.construct opening (RedisConn.ofConfig cfg opening selecting).isSome
  | .constructHost host port opening =>
      ledger.construct opening (RedisConn.ofHost host port opening).isSome
  | .moveConstruct source => ledger.moveConstruct source
  | .moveAssign target source =>
      if target = source then ledger else ledger.moveAssign target source
  | .destroy index => ledger.destroy index
  | .lose _ => ledger
  | .command _ _ _ => ledger
  | .commandV index _ opening _ _ | .commandArgv index _ opening _ _ =>
      match state.connections[index]? with
      | some connection => ledger.checkConnection connection.conn index opening
      | none => ledger

/-- The step with the ledger. -/
def tracked : Step (State × Ledger) Action :=
  observe step track

/-- The action drops no context: a constructor that has opened one returns, and a checked
command finds the connection usable or without a context. -/
def Frees (state : State) : Action → Prop
  | .construct cfg opening selecting =>
      opening = .unallocated ∨ (RedisConn.ofConfig cfg opening selecting).isSome
  | .constructHost host port opening =>
      opening = .unallocated ∨ (RedisConn.ofHost host port opening).isSome
  | .commandV index _ _ _ _ | .commandArgv index _ _ _ _ =>
      ∀ connection ∈ state.connections[index]?,
        connection.conn.isConnected ∨ connection.conn.context = none
  | _ => True

/-! ## Accounting -/

namespace Ledger

/-- Every opened context is in one place, once: in a local pointer, in an object, freed or
dropped. -/
def Accounts (ledger : Ledger) (held : List Nat) : Prop :=
  (held ++ (ledger.contexts.reduceOption ++ (ledger.freed ++ ledger.dropped))).Perm
    (List.range ledger.opened)

variable {ledger : Ledger} {held : List Nat}

theorem start_accounts : start.Accounts [] :=
  List.Perm.refl _

theorem Accounts.redisConnect (accounts : ledger.Accounts held) (opening : Opening) :
    (ledger.redisConnect opening).2.Accounts
      ((ledger.redisConnect opening).1.toList ++ held) := by
  have fresh : Ledger.Accounts { ledger with opened := ledger.opened + 1 }
      ((some ledger.opened).toList ++ held) := by
    rw [Accounts, List.range_succ, List.append_assoc]
    exact (accounts.append_left [ledger.opened]).trans List.perm_append_comm
  cases opening with
  | accepted => exact fresh
  | refused => exact fresh
  | unallocated => exact accounts

theorem Accounts.redisFree {pointer : Option Nat}
    (accounts : ledger.Accounts (pointer.toList ++ held)) :
    (ledger.redisFree pointer).Accounts held := by
  refine List.Perm.trans (List.perm_iff_count.mpr fun id => ?_) accounts
  simp only [Ledger.redisFree, List.count_append]
  omega

theorem Accounts.drop {pointer : Option Nat}
    (accounts : ledger.Accounts (pointer.toList ++ held)) :
    (ledger.drop pointer).Accounts held := by
  refine List.Perm.trans (List.perm_iff_count.mpr fun id => ?_) accounts
  simp only [Ledger.drop, List.count_append]
  omega

theorem Accounts.create {pointer : Option Nat}
    (accounts : ledger.Accounts (pointer.toList ++ held)) :
    (ledger.create pointer).Accounts held := by
  refine List.Perm.trans (List.perm_iff_count.mpr fun id => ?_) accounts
  simp only [Ledger.create, List.reduceOption_append, List.reduceOption_singleton,
    List.count_append]
  omega

theorem Accounts.assign {pointer : Option Nat} {index : Nat}
    (accounts : ledger.Accounts (pointer.toList ++ held))
    (alive : index < ledger.contexts.length) :
    (ledger.assign index pointer).Accounts ((ledger.context index).toList ++ held) := by
  have here : ledger.contexts[index]? = some (ledger.context index) := by
    rw [context, List.getElem?_eq_getElem alive, Option.join_some]
  refine List.Perm.trans (List.perm_iff_count.mpr fun id => ?_) accounts
  have exchanged := (Slots.reduceOption_set_perm here pointer).count_eq id
  simp only [Ledger.assign, List.count_append] at exchanged ⊢
  omega

theorem Accounts.erase (accounts : ledger.Accounts held) (index : Nat) :
    (ledger.erase index).Accounts ((ledger.context index).toList ++ held) := by
  refine List.Perm.trans (List.perm_iff_count.mpr fun id => ?_) accounts
  cases here : ledger.contexts[index]? with
  | none =>
      have beyond := List.getElem?_eq_none_iff.mp here
      simp [Ledger.erase, context, here, List.eraseIdx_of_length_le beyond]
  | some old =>
      have taken := (Slots.reduceOption_eraseIdx_perm here).count_eq id
      have pointer : ledger.context index = old := by
        rw [context, here, Option.join_some]
      simp only [Ledger.erase, pointer, List.count_append] at taken ⊢
      omega

/-! ## The functions -/

theorem Accounts.connect (accounts : ledger.Accounts []) {index : Nat}
    (alive : index < ledger.contexts.length) (opening : Opening) :
    (ledger.connect index opening).Accounts [] := by
  have opened := accounts.redisConnect opening
  have same : (ledger.redisConnect opening).2.contexts = ledger.contexts := by
    cases opening <;> rfl
  have assigned := opened.assign (by rwa [same])
  exact assigned.drop

theorem Accounts.construct (accounts : ledger.Accounts []) (opening : Opening)
    (returns : Bool) : (ledger.construct opening returns).Accounts [] := by
  have opened := accounts.redisConnect opening
  cases returns with
  | true => exact opened.create
  | false => exact opened.drop

theorem Accounts.moveConstruct (accounts : ledger.Accounts []) {source : Nat}
    (alive : source < ledger.contexts.length) : (ledger.moveConstruct source).Accounts [] := by
  have released : (ledger.assign source none).Accounts ((ledger.context source).toList ++ []) :=
    Accounts.assign accounts alive
  exact released.create

theorem Accounts.moveAssign (accounts : ledger.Accounts []) {target source : Nat}
    (apart : target ≠ source) (targetAlive : target < ledger.contexts.length)
    (sourceAlive : source < ledger.contexts.length) :
    (ledger.moveAssign target source).Accounts [] := by
  have released : (ledger.assign source none).Accounts ((ledger.context source).toList ++ []) :=
    Accounts.assign accounts sourceAlive
  have mine : (ledger.assign source none).context target = ledger.context target := by
    rw [context, context, Ledger.assign, List.getElem?_set_ne apart.symm]
  have alive : target < (ledger.assign source none).contexts.length := by
    rwa [Ledger.assign, List.length_set]
  have assigned := released.assign alive
  rw [mine] at assigned
  have order : ledger.moveAssign target source =
      (((ledger.assign source none).assign target (ledger.context source)).redisFree
        (ledger.context target)) := by
    simp only [Ledger.moveAssign, Ledger.assign, Ledger.redisFree, List.set_comm _ _ apart]
  rw [order]
  exact assigned.redisFree

theorem Accounts.destroy (accounts : ledger.Accounts []) (index : Nat) :
    (ledger.destroy index).Accounts [] :=
  (accounts.erase index).redisFree

end Ledger

/-! ## Objects and pointers -/

/-- An object has a context exactly when it has a pointer to one. -/
def Aligned (state : State) (ledger : Ledger) : Prop :=
  ledger.contexts.map Option.isSome =
    state.connections.map fun connection => connection.conn.context.isSome

namespace RedisConn

theorem command_isSome (conn : RedisConn) (text : Command) (answer : Option Answer) :
    (conn.command text answer).2.context.isSome = conn.context.isSome := by
  rcases conn with ⟨_ | context, config⟩
  · rfl
  · by_cases usable : context.err = 0
    · simp [command, redisCommand, usable]
    · simp [command, redisCommand, usable]

theorem select_isSome (conn : RedisConn) (index : Int) (answer : Option Answer) :
    (conn.select index answer).2.context.isSome = conn.context.isSome := by
  rw [← command_isSome conn ["SELECT", toString index] answer, select]
  split <;> simp_all

/-- `connect` leaves a pointer unless nothing was allocated. -/
theorem connect_isSome (conn : RedisConn) (opening : Opening) (answer : Option Answer) :
    (conn.connect opening answer).2.context.isSome = decide (opening ≠ .unallocated) := by
  have opened : (redisConnect conn.config.host (Machine.int32 conn.config.port) opening).isSome =
      decide (opening ≠ .unallocated) := by
    cases opening <;> rfl
  rw [← opened, connect]
  split
  · rfl
  · split
    · rfl
    · exact select_isSome _ _ _

theorem checkConnection_isSome (conn : RedisConn) (opening : Opening)
    (selecting : Option Answer) :
    (conn.checkConnection opening selecting).2.context.isSome =
      if conn.isConnected then true else decide (opening ≠ .unallocated) := by
  rw [checkConnection]
  cases connected : conn.isConnected with
  | true =>
      obtain ⟨context, found, _⟩ := isConnected_iff.mp connected
      simp [Option.mem_def.mp found]
  | false => exact connect_isSome conn opening selecting

theorem checkedCommand_isSome (conn : RedisConn) (text : Command) (opening : Opening)
    (selecting answer : Option Answer) :
    (conn.checkedCommand text opening selecting answer).2.context.isSome =
      if conn.isConnected then true else decide (opening ≠ .unallocated) := by
  rw [← checkConnection_isSome conn opening selecting, checkedCommand]
  rcases conn.checkConnection opening selecting with ⟨returned, after⟩
  cases returned with
  | false => rfl
  | true =>
      dsimp only
      split
      · exact command_isSome after text answer
      · rfl

/-- An object that a constructor makes has what `redisConnect` has returned. -/
theorem ofConfig_isSome {cfg : RedisConfig} {opening : Opening} {selecting : Option Answer}
    {conn : RedisConn} (made : ofConfig cfg opening selecting = some conn) :
    conn.context.isSome = decide (opening ≠ .unallocated) := by
  rw [← connect_isSome { config := cfg } opening selecting]
  rw [ofConfig] at made
  split at made
  · rename_i connected
    cases made
    rw [connected]
  · contradiction

theorem ofHost_isSome {host : String} {port : Int} {opening : Opening} {conn : RedisConn}
    (made : ofHost host port opening = some conn) :
    conn.context.isSome = decide (opening ≠ .unallocated) := by
  rw [ofHost] at made
  split at made
  · cases made
    cases opening <;> rfl
  · contradiction

end RedisConn

section Aligned

variable {state next : State} {ledger : Ledger}

theorem Aligned.length (aligned : Aligned state ledger) :
    ledger.contexts.length = state.connections.length := by
  have lengths := congrArg List.length aligned
  rwa [List.length_map, List.length_map] at lengths

theorem Aligned.context (aligned : Aligned state ledger) {index : Nat}
    {connection : Connection} (here : state.connections[index]? = some connection) :
    (ledger.context index).isSome = connection.conn.context.isSome := by
  have entries := congrArg (·[index]?) aligned
  simp only [List.getElem?_map, here, Option.map_some] at entries
  obtain ⟨pointer, found, same⟩ := Option.map_eq_some_iff.mp entries
  rw [Ledger.context, found, Option.join_some, same]

theorem Aligned.construct (aligned : Aligned state ledger) (origin : Origin)
    {made : Option RedisConn} {opening : Opening}
    (opened : ∀ conn, made = some conn →
      conn.context.isSome = decide (opening ≠ .unallocated)) :
    Aligned (state.construct origin made) (ledger.construct opening made.isSome) := by
  have same : (ledger.redisConnect opening).2.contexts = ledger.contexts := by
    cases opening <;> rfl
  have pointer : (ledger.redisConnect opening).1.isSome = decide (opening ≠ .unallocated) := by
    cases opening <;> rfl
  cases made with
  | none =>
      rw [Aligned, Ledger.construct]
      exact (congrArg (List.map Option.isSome) same).trans aligned
  | some conn =>
      rw [Aligned, Ledger.construct, State.construct]
      simp only [Option.isSome_some, if_true, Ledger.create, same, List.map_append,
        List.map_cons, List.map_nil, pointer, opened conn rfl]
      rw [aligned]

theorem Aligned.checked (aligned : Aligned state ledger) {index : Nat} {connection : Connection}
    (here : state.connections[index]? = some connection) (text : Command) (opening : Opening)
    (selecting answer : Option Answer) :
    Aligned
      (state.call index connection (connection.conn.checkedCommand text opening selecting answer))
      (ledger.checkConnection connection.conn index opening) := by
  have after := RedisConn.checkedCommand_isSome connection.conn text opening selecting answer
  rw [Aligned, State.call, Ledger.checkConnection]
  cases connected : connection.conn.isConnected with
  | true =>
      obtain ⟨context, found, _⟩ := RedisConn.isConnected_iff.mp connected
      rw [Slots.map_set_of_eq here]
      · exact aligned
      · dsimp only
        rw [after, connected, Option.mem_def.mp found]
        rfl
  | false =>
      have same : (ledger.redisConnect opening).2.contexts = ledger.contexts := by
        cases opening <;> rfl
      have pointer : (ledger.redisConnect opening).1.isSome =
          decide (opening ≠ .unallocated) := by
        cases opening <;> rfl
      rw [connected] at after
      simp only [Bool.false_eq_true, if_false] at after
      simp only [Bool.false_eq_true, if_false, Ledger.connect, Ledger.drop, Ledger.assign, same,
        List.map_set, pointer, after]
      rw [aligned]

theorem Aligned.step (aligned : Aligned state ledger) {act : Action}
    (taken : step state act = some next) : Aligned next (track state ledger act) := by
  cases act with
  | construct cfg opening selecting =>
      cases taken
      exact aligned.construct _ fun conn made => RedisConn.ofConfig_isSome made
  | constructHost host port opening =>
      cases taken
      exact aligned.construct _ fun conn made => RedisConn.ofHost_isSome made
  | moveConstruct source =>
      obtain ⟨other, here, rfl⟩ := Option.map_eq_some_iff.mp taken
      have pointer := aligned.context here
      simp only [Aligned, track, Ledger.moveConstruct, Ledger.create, Ledger.assign,
        RedisConn.moveConstruct, List.map_append, List.map_set, List.map_cons, List.map_nil,
        pointer, Option.isSome_none]
      rw [aligned]
  | moveAssign target source =>
      by_cases self : target = source
      · simp only [Redis.step, if_pos self, Option.some.injEq] at taken
        rw [track, if_pos self, ← taken]
        exact aligned
      · simp only [Redis.step, if_neg self] at taken
        obtain ⟨assigned, targetHere, rest⟩ := Option.bind_eq_some_iff.mp taken
        obtain ⟨other, sourceHere, rfl⟩ := Option.map_eq_some_iff.mp rest
        have pointer := aligned.context sourceHere
        simp only [Aligned, track, if_neg self, Ledger.moveAssign, Ledger.assign,
          Ledger.redisFree, RedisConn.moveAssign, List.map_set, pointer, Option.isSome_none]
        rw [aligned]
  | destroy index =>
      cases taken
      simp only [Aligned, track, Ledger.destroy, Ledger.erase, Ledger.redisFree,
        ← List.eraseIdx_map]
      rw [aligned]
  | lose index =>
      obtain ⟨connection, here, rfl⟩ := Option.map_eq_some_iff.mp taken
      rw [Aligned, Slots.map_set_of_eq here]
      · exact aligned
      · simp [RedisConn.lose]
  | command index text answer =>
      obtain ⟨connection, here, rfl⟩ := Option.map_eq_some_iff.mp taken
      rw [Aligned, State.call, Slots.map_set_of_eq here]
      · exact aligned
      · exact RedisConn.command_isSome connection.conn text answer
  | commandV index text opening selecting answer =>
      obtain ⟨connection, here, rfl⟩ := Option.map_eq_some_iff.mp taken
      rw [track, here]
      exact aligned.checked here text opening selecting answer
  | commandArgv index text opening selecting answer =>
      obtain ⟨connection, here, rfl⟩ := Option.map_eq_some_iff.mp taken
      rw [track, here]
      exact aligned.checked here text opening selecting answer

/-! ## Runs -/

/-- One step keeps every context accounted for. -/
theorem track_accounts (aligned : Aligned state ledger) (accounts : ledger.Accounts [])
    {act : Action} (taken : step state act = some next) :
    (track state ledger act).Accounts [] := by
  have alive {index : Nat} {connection : Connection}
      (here : state.connections[index]? = some connection) : index < ledger.contexts.length := by
    rw [aligned.length]
    exact (List.getElem?_eq_some_iff.mp here).1
  have checked {index : Nat} {connection : Connection} (opening : Opening)
      (here : state.connections[index]? = some connection) :
      (ledger.checkConnection connection.conn index opening).Accounts [] := by
    rw [Ledger.checkConnection]
    split
    · exact accounts
    · exact accounts.connect (alive here) opening
  cases act with
  | construct cfg opening selecting => exact accounts.construct opening _
  | constructHost host port opening => exact accounts.construct opening _
  | moveConstruct source =>
      obtain ⟨other, here, rfl⟩ := Option.map_eq_some_iff.mp taken
      exact accounts.moveConstruct (alive here)
  | moveAssign target source =>
      rw [track]
      by_cases self : target = source
      · rw [if_pos self]
        exact accounts
      · simp only [Redis.step, if_neg self] at taken
        obtain ⟨assigned, targetHere, rest⟩ := Option.bind_eq_some_iff.mp taken
        obtain ⟨other, sourceHere, rfl⟩ := Option.map_eq_some_iff.mp rest
        rw [if_neg self]
        exact accounts.moveAssign self (alive targetHere) (alive sourceHere)
  | destroy index => exact accounts.destroy index
  | lose index => exact accounts
  | command index text answer => exact accounts
  | commandV index text opening selecting answer =>
      obtain ⟨connection, here, rfl⟩ := Option.map_eq_some_iff.mp taken
      rw [track, here]
      exact checked opening here
  | commandArgv index text opening selecting answer =>
      obtain ⟨connection, here, rfl⟩ := Option.map_eq_some_iff.mp taken
      rw [track, here]
      exact checked opening here

/-- Dropping a pointer loses a context unless the pointer is null. -/
theorem Ledger.dropped_drop (pointer : Option Nat) :
    (ledger.drop pointer).dropped = [] ↔ ledger.dropped = [] ∧ pointer = none := by
  cases pointer <;> simp [Ledger.drop]

theorem Ledger.dropped_construct (opening : Opening) (returns : Bool) :
    (ledger.construct opening returns).dropped = [] ↔
      ledger.dropped = [] ∧ (opening = .unallocated ∨ returns = true) := by
  cases opening <;> cases returns <;> simp [construct, redisConnect, create, drop]

theorem Ledger.dropped_checkConnection (aligned : Aligned state ledger) {index : Nat}
    {connection : Connection} (here : state.connections[index]? = some connection)
    (opening : Opening) :
    (ledger.checkConnection connection.conn index opening).dropped = [] ↔
      ledger.dropped = [] ∧
        (connection.conn.isConnected = true ∨ connection.conn.context = none) := by
  have pointer := aligned.context here
  rw [checkConnection]
  cases connected : connection.conn.isConnected with
  | true => simp
  | false =>
      have kept : ((ledger.redisConnect opening).2.assign index
          (ledger.redisConnect opening).1).dropped = ledger.dropped := by
        cases opening <;> rfl
      have same : (ledger.redisConnect opening).2.context index = ledger.context index := by
        cases opening <;> rfl
      have null : ledger.context index = none ↔ connection.conn.context = none := by
        rw [← Option.not_isSome_iff_eq_none, ← Option.not_isSome_iff_eq_none, pointer]
      simp only [Bool.false_eq_true, if_false, false_or, connect, dropped_drop, kept, same, null]

/-- A step leaves no context behind exactly when it satisfies `Frees`. -/
theorem track_dropped (aligned : Aligned state ledger) {act : Action}
    (taken : step state act = some next) :
    (track state ledger act).dropped = [] ↔ ledger.dropped = [] ∧ Frees state act := by
  cases act with
  | construct cfg opening selecting => exact Ledger.dropped_construct opening _
  | constructHost host port opening => exact Ledger.dropped_construct opening _
  | moveConstruct source => simp [track, Frees, Ledger.moveConstruct, Ledger.create, Ledger.assign]
  | moveAssign target source =>
      rw [track]
      split <;> simp [Frees, Ledger.moveAssign, Ledger.assign, Ledger.redisFree]
  | destroy index => simp [track, Frees, Ledger.destroy, Ledger.erase, Ledger.redisFree]
  | lose index => simp [track, Frees]
  | command index text answer => simp [track, Frees]
  | commandV index text opening selecting answer =>
      obtain ⟨connection, here, rfl⟩ := Option.map_eq_some_iff.mp taken
      simp only [track, here, Frees, Option.mem_def, Option.some.injEq, forall_eq']
      exact Ledger.dropped_checkConnection aligned here opening
  | commandArgv index text opening selecting answer =>
      obtain ⟨connection, here, rfl⟩ := Option.map_eq_some_iff.mp taken
      simp only [track, here, Frees, Option.mem_def, Option.some.injEq, forall_eq']
      exact Ledger.dropped_checkConnection aligned here opening

end Aligned

/-- What holds of the objects and the ledger in every state of a run. -/
structure Traced (observed : State × Ledger) : Prop where
  aligned : Aligned observed.1 observed.2
  accounts : observed.2.Accounts []

theorem start_traced : Traced (start, Ledger.start) where
  aligned := rfl
  accounts := Ledger.start_accounts

theorem tracked_step ⦃observed : State × Ledger⦄ ⦃act : Action⦄ ⦃next : State × Ledger⦄
    (traced : Traced observed) (taken : tracked observed act = some next) :
    Traced next ∧ (next.2.dropped = [] ↔ observed.2.dropped = [] ∧ Frees observed.1 act) := by
  obtain ⟨first, written⟩ := observe_eq_some_iff.mp taken
  rw [← written]
  refine ⟨⟨?_, ?_⟩, track_dropped traced.aligned first⟩
  · rw [← written]
    exact traced.aligned.step first
  · rw [← written]
    exact track_accounts traced.aligned traced.accounts first

/-- Whatever is done with connections, every context that was opened is in exactly one of three
places: the object that points to it, the list of those that have been freed, or the list of
those that were lost.  So no context is freed twice, no object points to one that
has been freed, and no two objects to the same one.  And none is lost if and only if no
constructor throws after it has opened one and no checked command opens a connection again
whose old context is still there. -/
theorem run_contexts {acts : List Action} {final : State}
    (run : exec step start acts = some final) :
    ∃ ledger, exec tracked (start, Ledger.start) acts = some (final, ledger) ∧
      (ledger.contexts.reduceOption ++ (ledger.freed ++ ledger.dropped)).Perm
        (List.range ledger.opened) ∧
      (ledger.dropped = [] ↔ Along step Frees start acts) := by
  obtain ⟨ledger, observed⟩ := exists_exec_observe run Ledger.start
  have traced : Traced (final, ledger) :=
    invariant_exec (fun _ _ _ before taken => (tracked_step before taken).1) start_traced observed
  have lost := last_iff_along tracked_step start_traced observed
  have nothing : (start, Ledger.start).2.dropped = [] := rfl
  refine ⟨ledger, observed, traced.accounts, ?_⟩
  rw [lost, and_iff_right nothing]
  exact along_observe

/-- The context that was lost is overwritten when the connection is opened again. -/
theorem reopened_contexts :
    ∃ final ledger, exec tracked (start, Ledger.start) reopened = some (final, ledger) ∧
      ledger = ⟨[none, some 1], 2, [], [0]⟩ ∧
      (ledger.contexts.reduceOption ++ (ledger.freed ++ ledger.dropped)).Perm
        (List.range ledger.opened) ∧
      (ledger.dropped = [] ↔ Along step Frees start reopened) := by
  obtain ⟨final, run⟩ : ∃ final, exec step start reopened = some final := ⟨_, rfl⟩
  obtain ⟨ledger, observed, accounted, lost⟩ := run_contexts run
  have becomes : (exec tracked (start, Ledger.start) reopened).map Prod.snd =
      some ⟨[none, some 1], 2, [], [0]⟩ := rfl
  rw [observed] at becomes
  exact ⟨final, ledger, observed, Option.some.inj becomes, accounted, lost⟩

end Cncpp.Redis

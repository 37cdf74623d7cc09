import Cncpp.Redis.Core
import Cncpp.Transition.Run

/-!
# Where commands go

A connection is created for one host, port and database.  It passes from object to
object by moves, is lost at any time, and is opened again by `checkConnection` with the
configuration of the object that holds it then.  The objects are kept in one list, and
an action names an object by its position.
-/

namespace Cncpp.Redis

open Cncpp.Machine
open Cncpp.Transition

/-- What a connection was created for. -/
structure Origin where
  host : String
  port : Int
  dbindex : Int
  deriving DecidableEq

/-- The origin of a connection that is created from a configuration. -/
def Origin.ofConfig (cfg : RedisConfig) : Origin :=
  ⟨cfg.host, cfg.port, cfg.dbindex⟩

/-- The context was opened to the host and port of the origin, and the server has
selected its database. -/
def RedisContext.At (context : RedisContext) (origin : Origin) : Prop :=
  context.host = origin.host ∧ context.port = origin.port ∧ context.selected = origin.dbindex

/-- A living `RedisConn`. -/
structure Connection where
  conn : RedisConn
  /-- History: what the connection in this object was created for. -/
  origin : Origin
  deriving DecidableEq

/-- The living objects and what has become of the commands so far. -/
structure State where
  connections : List Connection
  /-- History: the outcome of every call, with the origin of its connection. -/
  calls : List (Outcome × Origin)

/-- The steps.  `opening`, `selecting` and `answer` are what the server does. -/
inductive Action where
  | construct (cfg : RedisConfig) (opening : Opening) (selecting : Option Answer)
  | constructHost (host : String) (port : Int) (opening : Opening)
  | moveConstruct (source : Nat)
  | moveAssign (target source : Nat)
  | destroy (index : Nat)
  | lose (index : Nat)
  | command (index : Nat) (text : Command) (answer : Option Answer)
  | commandV (index : Nat) (text : Command) (opening : Opening)
      (selecting answer : Option Answer)
  | commandArgv (index : Nat) (text : Command) (opening : Opening)
      (selecting answer : Option Answer)

/-- No object. -/
def start : State :=
  ⟨[], []⟩

namespace State

/-- A constructor has returned, or thrown. -/
def construct (state : State) (origin : Origin) : Option RedisConn → State
  | some conn => { state with connections := state.connections ++ [⟨conn, origin⟩] }
  | none => state

/-- A command was called on the connection at `index`. -/
def call (state : State) (index : Nat) (connection : Connection) :
    Outcome × RedisConn → State
  | (outcome, after) =>
      { connections := state.connections.set index { connection with conn := after }
        calls := state.calls ++ [(outcome, connection.origin)] }

end State

/-- One step.  A move takes the origin along. -/
def step : Step State Action
  | state, .construct cfg opening selecting =>
      some (state.construct (Origin.ofConfig cfg) (RedisConn.ofConfig cfg opening selecting))
  | state, .constructHost host port opening =>
      some (state.construct ⟨host, port, 0⟩ (RedisConn.ofHost host port opening))
  | state, .moveConstruct source =>
      (state.connections[source]?).map fun other =>
        let (made, left) := other.conn.moveConstruct
        { state with
          connections := state.connections.set source { other with conn := left } ++
            [{ other with conn := made }] }
  | state, .moveAssign target source =>
      if target = source then some state
      else
        (state.connections[target]?).bind fun assigned =>
          (state.connections[source]?).map fun other =>
            let (made, left) := assigned.conn.moveAssign other.conn
            { state with
              connections := (state.connections.set target { other with conn := made }).set
                source { other with conn := left } }
  | state, .destroy index =>
      some { state with connections := state.connections.eraseIdx index }
  | state, .lose index =>
      (state.connections[index]?).map fun connection =>
        { state with
          connections := state.connections.set index
            { connection with conn := connection.conn.lose } }
  | state, .command index text answer =>
      (state.connections[index]?).map fun connection =>
        state.call index connection (connection.conn.command text answer)
  | state, .commandV index text opening selecting answer =>
      (state.connections[index]?).map fun connection =>
        state.call index connection (connection.conn.commandV text opening selecting answer)
  | state, .commandArgv index text opening selecting answer =>
      (state.connections[index]?).map fun connection =>
        state.call index connection (connection.conn.commandArgv text opening selecting answer)

/-- What is expected of a call: it sends on a usable context at the origin of its
connection, or fails. -/
def Right (origin : Origin) : Outcome → Prop
  | .sent context _ _ => context.err = 0 ∧ context.At origin
  | .failed => True
  | .undefined => False

/-- All calls so far went where they should. -/
def Safe (state : State) : Prop :=
  ∀ call ∈ state.calls, Right call.2 call.1

/-! ## Steps that keep a connection in its place -/

/-- `connect` with this configuration ends in its database: the numbers survive the
conversion to `int`, and the server does what the `SELECT` asks for. -/
def Reaches (cfg : RedisConfig) (opening : Opening) (selecting : Option Answer) : Prop :=
  opening = .accepted → cfg.port < 2 ^ 31 ∧ cfg.dbindex < 2 ^ 31 ∧
    (cfg.dbindex ≠ 0 → ∀ performed ∈ selecting, performed.selected = cfg.dbindex)

/-- The caller's command leaves the database of the origin selected. -/
def Stays (origin : Origin) (answer : Option Answer) : Prop :=
  ∀ performed ∈ answer, performed.selected = origin.dbindex

/-- A checked command finds the connection usable, or opens it again with the
configuration it was created with. -/
def Reopens (connection : Connection) (opening : Opening) (selecting : Option Answer) :
    Prop :=
  connection.conn.isConnected = false →
    connection.origin = Origin.ofConfig connection.conn.config ∧
      Reaches connection.conn.config opening selecting

/-- The condition on a step. -/
def Keeps (state : State) : Action → Prop
  | .construct cfg opening selecting => Reaches cfg opening selecting
  | .command index _ answer => ∀ connection ∈ state.connections[index]?,
      connection.conn.context ≠ none ∧ Stays connection.origin answer
  | .commandV index _ opening selecting answer
  | .commandArgv index _ opening selecting answer => ∀ connection ∈ state.connections[index]?,
      Reopens connection opening selecting ∧ Stays connection.origin answer
  | _ => True

/-- A usable context of the object is at the origin. -/
def RedisConn.Placed (conn : RedisConn) (origin : Origin) : Prop :=
  ∀ context ∈ conn.context, context.err = 0 → context.At origin

/-- Everything that holds as long as the steps keep the connections in their places. -/
structure Inv (state : State) : Prop where
  placed : ∀ connection ∈ state.connections, connection.conn.Placed connection.origin
  safe : Safe state

theorem start_inv : Inv start where
  placed := by simp [start]
  safe := by simp [start, Safe]

/-! ## The functions of `RedisConn` -/

namespace RedisConn

variable {conn : RedisConn} {origin : Origin}

theorem isConnected_iff : conn.isConnected = true ↔ ∃ context ∈ conn.context, context.err = 0 := by
  unfold isConnected
  cases conn.context <;> simp

theorem placed_of_none (empty : conn.context = none) : conn.Placed origin := by
  simp [Placed, empty]

/-- A command sent from its place stays in its place. -/
theorem answered_at {context : RedisContext} {answer : Option Answer}
    (place : context.At origin) (stays : Stays origin answer) :
    (context.answered answer).At origin := by
  cases answer with
  | none => exact place
  | some performed => exact ⟨place.1, place.2.1, stays performed rfl⟩

theorem command_placed {text : Command} {answer : Option Answer}
    (placed : conn.Placed origin) (present : conn.context ≠ none)
    (stays : Stays origin answer) :
    Right origin (conn.command text answer).1 ∧
      (conn.command text answer).2.Placed origin := by
  obtain ⟨context, found⟩ := Option.ne_none_iff_exists'.mp present
  by_cases usable : context.err = 0
  · have place := placed context found usable
    have moved := answered_at place stays
    simpa [command, redisCommand, found, usable, Right, Placed, place] using fun _ => moved
  · simp [command, redisCommand, found, usable, Right, Placed]

/-- `connect` ends in the place that the configuration names. -/
theorem connect_placed {opening : Opening} {selecting : Option Answer}
    (reaches : Reaches conn.config opening selecting) :
    (conn.connect opening selecting).2.Placed (Origin.ofConfig conn.config) := by
  cases opening with
  | refused => simp [connect, redisConnect, isConnected, Placed]
  | unallocated => simp [connect, redisConnect, isConnected, Placed]
  | accepted =>
      rcases reaches rfl with ⟨port, dbindex, selected⟩
      have portFits := int32_of_lt port
      by_cases zero : conn.config.dbindex = 0
      · simp [connect, redisConnect, isConnected, zero, Placed, RedisContext.At, Origin.ofConfig,
          portFits]
      · have dbindexFits := int32_of_lt dbindex
        cases selecting with
        | none =>
            simp [connect, redisConnect, isConnected, zero, select, command, redisCommand,
              RedisContext.answered, Placed]
        | some performed =>
            have there := selected zero performed rfl
            simp [connect, redisConnect, isConnected, zero, select, command, redisCommand,
              RedisContext.answered, there, Placed, RedisContext.At, Origin.ofConfig, portFits,
              dbindexFits]

theorem checkedCommand_placed {connection : Connection} {text : Command} {opening : Opening}
    {selecting answer : Option Answer}
    (placed : connection.conn.Placed connection.origin)
    (reopens : Reopens connection opening selecting)
    (stays : Stays connection.origin answer) :
    Right connection.origin (connection.conn.checkedCommand text opening selecting answer).1 ∧
      (connection.conn.checkedCommand text opening selecting answer).2.Placed
        connection.origin := by
  have checked : (connection.conn.checkConnection opening selecting).2.Placed
      connection.origin := by
    cases connected : connection.conn.isConnected with
    | true => simpa [checkConnection, connected] using placed
    | false =>
        rcases reopens connected with ⟨same, reaches⟩
        rw [same]
        simpa [checkConnection, connected] using connect_placed reaches
  unfold checkedCommand
  rcases result : connection.conn.checkConnection opening selecting with ⟨returned, after⟩
  rw [result] at checked
  cases returned with
  | false => exact ⟨trivial, checked⟩
  | true =>
      cases connected : after.isConnected with
      | false => simpa [connected, Right] using checked
      | true =>
          obtain ⟨context, found, _⟩ := isConnected_iff.mp connected
          have present : after.context ≠ none := by
            rw [Option.mem_def.mp found]
            exact Option.some_ne_none context
          simpa [connected] using command_placed checked present stays

theorem lose_placed : conn.lose.Placed origin := by
  intro context found usable
  obtain ⟨before, _, rfl⟩ := Option.map_eq_some_iff.mp (Option.mem_def.mp found)
  cases usable

end RedisConn

/-! ## Runs -/

theorem Inv.append {state : State} (inv : Inv state) {conn : RedisConn} {origin : Origin}
    (placed : conn.Placed origin) :
    Inv { state with connections := state.connections ++ [⟨conn, origin⟩] } where
  placed := by
    intro connection member
    rcases List.mem_append.mp member with old | new
    · exact inv.placed connection old
    · rw [List.mem_singleton.mp new]
      exact placed
  safe := inv.safe

theorem Inv.set {state : State} (inv : Inv state) {conn : RedisConn} {origin : Origin}
    (placed : conn.Placed origin) (index : Nat) :
    Inv { state with connections := state.connections.set index ⟨conn, origin⟩ } where
  placed := by
    intro other member
    rcases List.mem_or_eq_of_mem_set member with old | rfl
    · exact inv.placed other old
    · exact placed
  safe := inv.safe

theorem Inv.construct {state : State} (inv : Inv state) {origin : Origin}
    {made : Option RedisConn} (placed : ∀ conn ∈ made, conn.Placed origin) :
    Inv (state.construct origin made) := by
  cases made with
  | none => exact inv
  | some conn => exact inv.append (placed conn rfl)

theorem Inv.call {state : State} (inv : Inv state) {connection : Connection}
    {result : Outcome × RedisConn}
    (right : Right connection.origin result.1 ∧ result.2.Placed connection.origin)
    (index : Nat) : Inv (state.call index connection result) where
  placed := (inv.set right.2 index).placed
  safe := by
    intro call member
    rcases List.mem_append.mp member with old | new
    · exact inv.safe call old
    · rw [List.mem_singleton.mp new]
      exact right.1

/-- The constructors leave the connection at its origin. -/
theorem ofConfig_placed {cfg : RedisConfig} {opening : Opening} {selecting : Option Answer}
    (reaches : Reaches cfg opening selecting) :
    ∀ conn ∈ RedisConn.ofConfig cfg opening selecting, conn.Placed (Origin.ofConfig cfg) := by
  intro conn made
  have connected : (RedisConn.connect { config := cfg } opening selecting).2.Placed
      (Origin.ofConfig cfg) := RedisConn.connect_placed reaches
  unfold RedisConn.ofConfig at made
  rcases result : RedisConn.connect { config := cfg } opening selecting with ⟨returned, after⟩
  rw [result] at made connected
  cases returned with
  | false => simp at made
  | true =>
      cases made
      exact connected

theorem ofHost_placed {host : String} {port : Int} {opening : Opening} :
    ∀ conn ∈ RedisConn.ofHost host port opening, conn.Placed ⟨host, port, 0⟩ := by
  intro conn made
  cases opening with
  | accepted =>
      cases made
      intro context found _
      cases found
      exact ⟨rfl, rfl, rfl⟩
  | refused => cases made
  | unallocated => cases made

/-- Every step that meets the condition keeps the connections in their places. -/
theorem step_inv {state next : State} {act : Action} (inv : Inv state)
    (keeps : Keeps state act) (stepped : step state act = some next) : Inv next := by
  cases act with
  | construct cfg opening selecting =>
      cases stepped
      exact inv.construct (ofConfig_placed keeps)
  | constructHost host port opening =>
      cases stepped
      exact inv.construct ofHost_placed
  | moveConstruct source =>
      simp only [step, Option.map_eq_some_iff] at stepped
      rcases stepped with ⟨other, found, rfl⟩
      have place := inv.placed other (List.mem_of_getElem? found)
      have made : other.conn.moveConstruct.1.Placed other.origin := place
      have left : other.conn.moveConstruct.2.Placed other.origin :=
        RedisConn.placed_of_none rfl
      exact (inv.set left source).append made
  | moveAssign target source =>
      simp only [step] at stepped
      split at stepped
      · cases stepped
        exact inv
      · obtain ⟨assigned, _, stepped⟩ := Option.bind_eq_some_iff.mp stepped
        obtain ⟨other, found, rfl⟩ := Option.map_eq_some_iff.mp stepped
        have place := inv.placed other (List.mem_of_getElem? found)
        have made : (assigned.conn.moveAssign other.conn).1.Placed other.origin := place
        have left : (assigned.conn.moveAssign other.conn).2.Placed other.origin :=
          RedisConn.placed_of_none rfl
        exact (inv.set made target).set left source
  | destroy index =>
      cases stepped
      exact ⟨fun connection member => inv.placed connection (List.mem_of_mem_eraseIdx member),
        inv.safe⟩
  | lose index =>
      simp only [step, Option.map_eq_some_iff] at stepped
      rcases stepped with ⟨connection, _, rfl⟩
      exact inv.set RedisConn.lose_placed index
  | command index text answer =>
      simp only [step, Option.map_eq_some_iff] at stepped
      rcases stepped with ⟨connection, found, rfl⟩
      rcases keeps connection found with ⟨present, stays⟩
      have place := inv.placed connection (List.mem_of_getElem? found)
      exact inv.call (RedisConn.command_placed place present stays) index
  | commandV index text opening selecting answer =>
      simp only [step, Option.map_eq_some_iff] at stepped
      rcases stepped with ⟨connection, found, rfl⟩
      rcases keeps connection found with ⟨reopens, stays⟩
      have place := inv.placed connection (List.mem_of_getElem? found)
      exact inv.call (RedisConn.checkedCommand_placed place reopens stays) index
  | commandArgv index text opening selecting answer =>
      simp only [step, Option.map_eq_some_iff] at stepped
      rcases stepped with ⟨connection, found, rfl⟩
      rcases keeps connection found with ⟨reopens, stays⟩
      have place := inv.placed connection (List.mem_of_getElem? found)
      exact inv.call (RedisConn.checkedCommand_placed place reopens stays) index

/-- In every run whose steps meet the condition, every command is sent on a usable
context at the origin of its connection, or the call fails. -/
theorem run_calls_right {acts : List Action} {final : State} (keeps : Along step Keeps start acts)
    (run : exec step start acts = some final) : Safe final :=
  (invariant_along (fun _ _ _ inv ok stepped => step_inv inv ok stepped) start_inv keeps
    run).safe

/-- A configuration with a database. -/
def primary : RedisConfig := ⟨"10.0.0.1", 6379, 3⟩

/-- A second server. -/
def secondary : RedisConfig := ⟨"10.0.0.2", 6380, 0⟩

/-- An answer that leaves a database selected. -/
def ok (selected : Int) : Option Answer :=
  some ⟨.status "OK", selected⟩

/-- A connection is used, lost, opened again by the next command, and moved. -/
def reopened : List Action :=
  [.construct primary .accepted (ok 3), .command 0 ["GET", "key"] (some ⟨.nil, 3⟩), .lose 0,
    .commandArgv 0 ["GET", "key"] .accepted (ok 3) (some ⟨.nil, 3⟩),
    .moveConstruct 0, .command 1 ["GET", "key"] (some ⟨.nil, 3⟩)]

/-- The run theorem at this run. -/
theorem reopened_safe :
    ∃ final, exec step start reopened = some final ∧ final.calls.length = 3 ∧ Safe final := by
  have run : ∃ final, exec step start reopened = some final ∧ final.calls.length = 3 :=
    ⟨_, rfl, rfl⟩
  obtain ⟨final, returned, calls⟩ := run
  have reaches : Reaches primary .accepted (ok 3) :=
    fun _ => ⟨by decide, by decide, fun _ _ same => by cases same; rfl⟩
  have stays : Stays ⟨"10.0.0.1", 6379, 3⟩ (some ⟨.nil, 3⟩) :=
    fun _ same => by cases same; rfl
  refine ⟨final, returned, calls, run_calls_right ?_ returned⟩
  refine (along_cons_iff rfl _).mpr ⟨reaches, (along_cons_iff rfl _).mpr ⟨?_, ?_⟩⟩
  · rintro connection ⟨⟩
    exact ⟨by decide, stays⟩
  refine (along_cons_iff rfl _).mpr ⟨trivial, (along_cons_iff rfl _).mpr ⟨?_, ?_⟩⟩
  · rintro connection ⟨⟩
    exact ⟨fun _ => ⟨rfl, reaches⟩, stays⟩
  refine (along_cons_iff rfl _).mpr ⟨trivial, (along_cons_iff rfl _).mpr ⟨?_, trivial⟩⟩
  rintro connection ⟨⟩
  exact ⟨by decide, stays⟩

/-- The connection to the second server is moved to the object that was created for the
first, and is lost there. -/
def drifted : List Action :=
  [.construct primary .accepted (ok 3), .construct secondary .accepted none,
    .moveAssign 0 1, .lose 0,
    .commandArgv 0 ["SET", "key", "value"] .accepted (ok 3) (ok 3)]

/-- The command for the second server is sent to the first one. -/
theorem drifted_not_safe :
    ∃ final context, exec step start drifted = some final ∧
      final.calls = [(.sent context ["SET", "key", "value"] (ok 3), ⟨"10.0.0.2", 6380, 0⟩)] ∧
        context = ⟨0, "10.0.0.1", 6379, 3⟩ ∧ ¬ Safe final := by
  refine ⟨_, _, rfl, rfl, by decide, fun safe => ?_⟩
  have right := safe _ (List.mem_singleton_self _)
  exact absurd right.2.2.1 (by decide)

end Cncpp.Redis

import Cncpp.ConnPool.Ledger
import Cncpp.Transition.Run
import Mathlib.Data.List.Nodup
import Mathlib.Logic.Function.Basic

/-!
# Exclusive lending

Any number of clients use one pool.  A step is one section under the mutex, so
`exchange` and `safe_grab` take several steps between which other clients act.
A client returns only what was lent to it: it releases, removes or exchanges a
connection it holds, once.  `clear(true)` is called only while nothing is lent.
-/

namespace Cncpp.ConnPool

open Cncpp.Transition

/-- Where a client stands between two sections. -/
inductive Phase (Conn : Type) where
  | ready
  /-- `exchange` has removed the old connection. -/
  | exchanging
  /-- `safe_grab` has grabbed a connection and asks it whether it is connected. -/
  | examining (conn : Conn)
  /-- `safe_grab` is about to remove the connection. -/
  | discarding (conn : Conn)
  /-- `safe_grab` is about to grab again. -/
  | retrying
  deriving DecidableEq

/-- The pool and its clients. -/
structure State (Client Conn : Type) where
  pool : MyConnPool Conn
  /-- What has been lent to whom and not come back. -/
  leases : List (Client × Conn)
  phase : Client → Phase Conn

/-- The sections, with the client that runs them, the readings of the clock and the
outcome of `create` and `isConnected`. -/
inductive Action (Client Conn : Type) where
  | grab (client : Client) (now : Int) (creation : Option (Conn × Int))
  | release (client : Client) (conn : Conn) (now : Int)
  | remove (client : Client) (conn : Conn)
  | exchangeRemove (client : Client) (conn : Conn)
  | exchangeGrab (client : Client) (now : Int) (creation : Option (Conn × Int))
  | safeGrab (client : Client) (now : Int) (creation : Option (Conn × Int))
  | isConnected (client : Client) (answer : Bool)
  | safeRemove (client : Client)
  | shrink (client : Client)
  | clear (client : Client)

variable {Client Conn : Type}

namespace State

/-- No connection, and nobody in the middle of anything. -/
def start : State Client Conn :=
  ⟨MyConnPool.empty, [], fun _ => .ready⟩

/-- A connection that `safe_grab` has grabbed and not returned. -/
def Examined (state : State Client Conn) (client : Client) (conn : Conn) : Prop :=
  state.phase client = .examining conn ∨ state.phase client = .discarding conn

/-- A connection that was returned to a client. -/
def Held (state : State Client Conn) (client : Client) (conn : Conn) : Prop :=
  (client, conn) ∈ state.leases ∧ ¬ state.Examined client conn

/-- The leases are the pool's lent connections, and what is examined is lent. -/
structure Inv (state : State Client Conn) : Prop where
  ledger : state.pool.Ledger (state.leases.map Prod.snd)
  examined : ∀ client conn, state.Examined client conn → (client, conn) ∈ state.leases

theorem start_inv : (start : State Client Conn).Inv where
  ledger := MyConnPool.empty_ledger
  examined := by simp [Examined, start]

variable [DecidableEq Client]

/-- The end of a section that grabs: the connection is lent to the client, or
`create` has thrown and the call is over. -/
def lend (state : State Client Conn) (client : Client)
    (result : Option Conn × MyConnPool Conn) (phase : Conn → Phase Conn) : State Client Conn :=
  match result.1 with
  | some conn =>
      ⟨result.2, (client, conn) :: state.leases, Function.update state.phase client (phase conn)⟩
  | none => ⟨result.2, state.leases, Function.update state.phase client .ready⟩

variable [DecidableEq Conn]

/-- The end of a section that gives a connection back. -/
def giveBack (state : State Client Conn) (client : Client) (conn : Conn)
    (pool : MyConnPool Conn) (phase : Phase Conn) : State Client Conn :=
  ⟨pool, state.leases.erase (client, conn), Function.update state.phase client phase⟩

/-- One section. -/
def step : Step (State Client Conn) (Action Client Conn)
  | state, .grab client now creation =>
      if state.phase client = .ready ∧ state.pool.NewFor creation then
        some (state.lend client (state.pool.grab now creation) fun _ => .ready)
      else none
  | state, .release client conn now =>
      if state.phase client = .ready ∧ (client, conn) ∈ state.leases then
        some (state.giveBack client conn (state.pool.release conn now) .ready)
      else none
  | state, .remove client conn =>
      if state.phase client = .ready ∧ (client, conn) ∈ state.leases then
        some (state.giveBack client conn (state.pool.remove conn) .ready)
      else none
  | state, .exchangeRemove client conn =>
      if state.phase client = .ready ∧ (client, conn) ∈ state.leases then
        some (state.giveBack client conn (state.pool.remove conn) .exchanging)
      else none
  | state, .exchangeGrab client now creation =>
      if state.phase client = .exchanging ∧ state.pool.NewFor creation then
        some (state.lend client (state.pool.grab now creation) fun _ => .ready)
      else none
  | state, .safeGrab client now creation =>
      if (state.phase client = .ready ∨ state.phase client = .retrying) ∧
          state.pool.NewFor creation then
        some (state.lend client (state.pool.grab now creation) .examining)
      else none
  | state, .isConnected client answer =>
      match state.phase client with
      | .examining conn =>
          some { state with
            phase := Function.update state.phase client
              (if answer then .ready else .discarding conn) }
      | _ => none
  | state, .safeRemove client =>
      match state.phase client with
      | .discarding conn => some (state.giveBack client conn (state.pool.remove conn) .retrying)
      | _ => none
  | state, .shrink client =>
      if state.phase client = .ready then some { state with pool := state.pool.shrink } else none
  | state, .clear client =>
      if state.phase client = .ready ∧ state.leases = [] then
        some { state with pool := state.pool.clear true }
      else none

/-- The arguments of `grab` in the sections that call it. -/
def grabbing : Action Client Conn → Option (Int × Option (Conn × Int))
  | .grab _ now creation => some (now, creation)
  | .exchangeGrab _ now creation => some (now, creation)
  | .safeGrab _ now creation => some (now, creation)
  | _ => none

/-- What a section does: it lends a connection, takes one back, asks a question or
tidies the pool. -/
inductive Effect (state : State Client Conn) : Action Client Conn → State Client Conn → Prop where
  | lend {act : Action Client Conn} {client : Client} {now : Int}
      {creation : Option (Conn × Int)} {phase : Conn → Phase Conn}
      (calls : grabbing act = some (now, creation)) (new : state.pool.NewFor creation)
      (own : ∀ conn other, phase conn = .examining other ∨ phase conn = .discarding other →
        other = conn) :
      Effect state act (state.lend client (state.pool.grab now creation) phase)
  | release {client : Client} {conn : Conn} {now : Int}
      (member : (client, conn) ∈ state.leases) :
      Effect state (.release client conn now)
        (state.giveBack client conn (state.pool.release conn now) .ready)
  | remove {act : Action Client Conn} {client : Client} {conn : Conn} {phase : Phase Conn}
      (caller : ((act = .remove client conn ∨ act = .exchangeRemove client conn) ∧
          (client, conn) ∈ state.leases) ∨
        (act = .safeRemove client ∧ state.phase client = .discarding conn))
      (done : ∀ other, phase ≠ .examining other ∧ phase ≠ .discarding other) :
      Effect state act (state.giveBack client conn (state.pool.remove conn) phase)
  | isConnected {client : Client} {conn : Conn} {answer : Bool}
      (position : state.phase client = .examining conn) :
      Effect state (.isConnected client answer)
        { state with
          phase := Function.update state.phase client
            (if answer then .ready else .discarding conn) }
  | shrink {client : Client} :
      Effect state (.shrink client) { state with pool := state.pool.shrink }
  | clear {client : Client} (noLease : state.leases = []) :
      Effect state (.clear client) { state with pool := state.pool.clear true }

/-- Every section has one of these effects. -/
theorem step_effect {state next : State Client Conn} {act : Action Client Conn}
    (stepped : step state act = some next) : Effect state act next := by
  cases act with
  | grab client now creation =>
      simp only [step, Option.ite_none_right_eq_some, Option.some.injEq] at stepped
      obtain ⟨⟨_, new⟩, rfl⟩ := stepped
      exact .lend rfl new (by simp)
  | release client conn now =>
      simp only [step, Option.ite_none_right_eq_some, Option.some.injEq] at stepped
      obtain ⟨⟨_, member⟩, rfl⟩ := stepped
      exact .release member
  | remove client conn =>
      simp only [step, Option.ite_none_right_eq_some, Option.some.injEq] at stepped
      obtain ⟨⟨_, member⟩, rfl⟩ := stepped
      exact .remove (Or.inl ⟨Or.inl rfl, member⟩) (by simp)
  | exchangeRemove client conn =>
      simp only [step, Option.ite_none_right_eq_some, Option.some.injEq] at stepped
      obtain ⟨⟨_, member⟩, rfl⟩ := stepped
      exact .remove (Or.inl ⟨Or.inr rfl, member⟩) (by simp)
  | exchangeGrab client now creation =>
      simp only [step, Option.ite_none_right_eq_some, Option.some.injEq] at stepped
      obtain ⟨⟨_, new⟩, rfl⟩ := stepped
      exact .lend rfl new (by simp)
  | safeGrab client now creation =>
      simp only [step, Option.ite_none_right_eq_some, Option.some.injEq] at stepped
      obtain ⟨⟨_, new⟩, rfl⟩ := stepped
      exact .lend rfl new (by simp [eq_comm])
  | isConnected client answer =>
      simp only [step] at stepped
      split at stepped
      case h_1 conn position =>
        cases stepped
        exact .isConnected position
      case h_2 => contradiction
  | safeRemove client =>
      simp only [step] at stepped
      split at stepped
      case h_1 conn position =>
        cases stepped
        exact .remove (Or.inr ⟨rfl, position⟩) (by simp)
      case h_2 => contradiction
  | shrink client =>
      simp only [step, Option.ite_none_right_eq_some, Option.some.injEq] at stepped
      obtain ⟨_, rfl⟩ := stepped
      exact .shrink
  | clear client =>
      simp only [step, Option.ite_none_right_eq_some, Option.some.injEq] at stepped
      obtain ⟨⟨_, noLease⟩, rfl⟩ := stepped
      exact .clear noLease

/-! ## Preservation -/

omit [DecidableEq Conn] in
/-- Lending what `grab` returned. -/
theorem Inv.lend {state : State Client Conn} (inv : state.Inv) (client : Client) (now : Int)
    {creation : Option (Conn × Int)} (new : state.pool.NewFor creation)
    {phase : Conn → Phase Conn}
    (own : ∀ conn other, phase conn = .examining other ∨ phase conn = .discarding other →
      other = conn) :
    (state.lend client (state.pool.grab now creation) phase).Inv := by
  rcases inv.ledger.grab now new with ⟨conn, after, result, ledger⟩ | ⟨_, result⟩
  · rw [State.lend, result]
    refine ⟨ledger, fun other examined inspected => ?_⟩
    by_cases same : other = client
    · subst same
      rw [Examined] at inspected
      simp only [Function.update_self] at inspected
      rw [own conn examined inspected]
      exact List.mem_cons_self
    · rw [Examined] at inspected
      simp only [Function.update_of_ne same] at inspected
      exact List.mem_cons_of_mem _ (inv.examined other examined inspected)
  · rw [State.lend, result]
    refine ⟨inv.ledger.removeOldConnections now, fun other examined inspected => ?_⟩
    by_cases same : other = client
    · subst same
      rw [Examined] at inspected
      simp at inspected
    · rw [Examined] at inspected
      simp only [Function.update_of_ne same] at inspected
      exact inv.examined other examined inspected

/-- The leases without one of them. -/
theorem map_erase_perm {leases : List (Client × Conn)}
    {client : Client} {conn : Conn} (member : (client, conn) ∈ leases) :
    (leases.map Prod.snd).Perm
      (conn :: (leases.erase (client, conn)).map Prod.snd) :=
  (List.perm_cons_erase member).map Prod.snd

/-- Taking back a lease. -/
theorem Inv.giveBack {state : State Client Conn} (inv : state.Inv) {client : Client}
    {conn : Conn} {pool : MyConnPool Conn} {phase : Phase Conn}
    (ledger : pool.Ledger ((state.leases.erase (client, conn)).map Prod.snd))
    (done : ∀ other, phase ≠ .examining other ∧ phase ≠ .discarding other) :
    (state.giveBack client conn pool phase).Inv := by
  refine ⟨ledger, fun other examined inspected => ?_⟩
  rw [Examined, State.giveBack] at inspected
  by_cases same : other = client
  · subst same
    simp only [Function.update_self] at inspected
    rcases inspected with examining | discarding
    · exact absurd examining (done examined).1
    · exact absurd discarding (done examined).2
  · simp only [Function.update_of_ne same] at inspected
    have different : (other, examined) ≠ (client, conn) := by
      rintro equal
      exact same (congrArg Prod.fst equal)
    exact (List.mem_erase_of_ne different).mpr (inv.examined other examined inspected)

/-- Releasing and removing a lease. -/
theorem Inv.release {state : State Client Conn} (inv : state.Inv) {client : Client}
    {conn : Conn} (member : (client, conn) ∈ state.leases) (now : Int) :
    (state.giveBack client conn (state.pool.release conn now) .ready).Inv :=
  inv.giveBack ((inv.ledger.perm (map_erase_perm member)).release now)
    (by simp)

theorem Inv.remove {state : State Client Conn} (inv : state.Inv) {client : Client}
    {conn : Conn} (member : (client, conn) ∈ state.leases) {phase : Phase Conn}
    (done : ∀ other, phase ≠ .examining other ∧ phase ≠ .discarding other) :
    (state.giveBack client conn (state.pool.remove conn) phase).Inv :=
  inv.giveBack (inv.ledger.perm (map_erase_perm member)).remove done

omit [DecidableEq Conn] in
/-- An answer moves a connection on inside of `safe_grab`, or returns it. -/
theorem Inv.isConnected {state : State Client Conn} (inv : state.Inv) {client : Client}
    {conn : Conn} (position : state.phase client = .examining conn) (answer : Bool) :
    ({ state with
      phase := Function.update state.phase client
        (if answer then .ready else .discarding conn) } : State Client Conn).Inv := by
  have member := inv.examined client conn (Or.inl position)
  refine ⟨inv.ledger, fun other examined inspected => ?_⟩
  rw [Examined] at inspected
  by_cases same : other = client
  · subst same
    simp only [Function.update_self] at inspected
    cases answer with
    | true => simp at inspected
    | false =>
        simp only [Bool.false_eq_true, if_false, reduceCtorEq, Phase.discarding.injEq,
          false_or] at inspected
        rw [← inspected]
        exact member
  · simp only [Function.update_of_ne same] at inspected
    exact inv.examined other examined inspected

/-- Every section keeps the invariant. -/
theorem step_inv {state next : State Client Conn} {act : Action Client Conn}
    (inv : state.Inv) (stepped : step state act = some next) : next.Inv := by
  cases step_effect stepped with
  | lend _ new own => exact inv.lend _ _ new own
  | release member => exact inv.release member _
  | remove caller done =>
      rcases caller with ⟨_, member⟩ | ⟨_, position⟩
      · exact inv.remove member done
      · exact inv.remove (inv.examined _ _ (Or.inr position)) done
  | isConnected position => exact inv.isConnected position _
  | shrink => exact ⟨inv.ledger.shrink, inv.examined⟩
  | clear noLease =>
      have ledger := inv.ledger
      rw [noLease] at ledger
      refine ⟨?_, inv.examined⟩
      change (state.pool.clear true).Ledger (state.leases.map Prod.snd)
      rw [noLease]
      exact ledger.clear

/-! ## What holds in every state -/

omit [DecidableEq Conn] in
theorem mem_lend {state : State Client Conn} {lease : Client × Conn}
    (member : lease ∈ state.leases) (client : Client) (result : Option Conn × MyConnPool Conn)
    (phase : Conn → Phase Conn) : lease ∈ (state.lend client result phase).leases := by
  rw [State.lend]
  split
  · exact List.mem_cons_of_mem _ member
  · exact member

theorem mem_giveBack {state : State Client Conn} {client : Client} {conn : Conn}
    (member : (client, conn) ∈ state.leases) (other : Client) (given : Conn)
    (pool : MyConnPool Conn) (phase : Phase Conn) :
    (client, conn) ∈ (state.giveBack other given pool phase).leases ∨
      (other = client ∧ given = conn) := by
  by_cases same : (client, conn) = (other, given)
  · cases same
    exact Or.inr ⟨rfl, rfl⟩
  · exact Or.inl ((List.mem_erase_of_ne same).mpr member)

/-- A lease ends only in a section of its client that says so. -/
theorem lease_kept {state next : State Client Conn} {act : Action Client Conn}
    (stepped : step state act = some next) {client : Client} {conn : Conn}
    (member : (client, conn) ∈ state.leases) :
    (client, conn) ∈ next.leases ∨
      (∃ now, act = .release client conn now ∧ next.pool.destroyed = state.pool.destroyed) ∨
      act = .remove client conn ∨ act = .exchangeRemove client conn ∨
      (act = .safeRemove client ∧ state.phase client = .discarding conn) := by
  cases step_effect stepped with
  | lend => exact Or.inl (mem_lend member _ _ _)
  | @release other given now _ =>
      rcases mem_giveBack member other given (state.pool.release given now) .ready with
        kept | ⟨rfl, rfl⟩
      · exact Or.inl kept
      · exact Or.inr (Or.inl ⟨now, rfl, rfl⟩)
  | @remove _ other given phase caller _ =>
      rcases mem_giveBack member other given (state.pool.remove given) phase with
        kept | ⟨rfl, rfl⟩
      · exact Or.inl kept
      · rcases caller with ⟨removes | exchanges, _⟩ | examines
        · exact Or.inr (Or.inr (Or.inl removes))
        · exact Or.inr (Or.inr (Or.inr (Or.inl exchanges)))
        · exact Or.inr (Or.inr (Or.inr (Or.inr examines)))
  | isConnected => exact Or.inl member
  | shrink => exact Or.inl member
  | clear => exact Or.inl member

/-- A section in which `create` throws removes old idle entries and does nothing else
to the pool. -/
theorem step_thrown {state next : State Client Conn} {act : Action Client Conn}
    (inv : state.Inv) (stepped : step state act = some next) {now : Int}
    {creation : Option (Conn × Int)} (calls : grabbing act = some (now, creation))
    (thrown : (state.pool.grab now creation).1 = none) :
    next.leases = state.leases ∧
      next.pool.pool = state.pool.pool.filter fun info =>
        !info.tooOld now MyConnPool.maxIdleTime := by
  cases step_effect stepped with
  | lend called new =>
      cases calls.symm.trans called
      rcases inv.ledger.grab now new with ⟨conn, after, result, _⟩ | ⟨_, result⟩
      · rw [result] at thrown
        contradiction
      · rw [State.lend, result]
        exact ⟨rfl, MyConnPool.removeOldConnections_pool state.pool now⟩
  | release => contradiction
  | remove caller => rcases caller with ⟨rfl | rfl, _⟩ | ⟨rfl, _⟩ <;> contradiction
  | isConnected => contradiction
  | shrink => contradiction
  | clear => contradiction

/-- What the pool promises to its clients in a state, and for the next section. -/
structure Exclusive (state : State Client Conn) : Prop where
  /-- No connection is held by two clients. -/
  single : ∀ first second conn, state.Held first conn → state.Held second conn → first = second
  /-- The marked entries are the connections held, or examined by `safe_grab`. -/
  marked : ∀ conn, (∃ info ∈ state.pool.pool, info.conn = conn ∧ info.inUse = true) ↔
    ∃ client, state.Held client conn ∨ state.Examined client conn
  /-- A connection that was created is an entry once or has been destroyed once. -/
  accounted : ∀ conn ∈ state.pool.created,
    (MyConnPool.conns state.pool.pool).count conn + state.pool.destroyed.count conn = 1
  /-- A held connection is destroyed by its holder only. -/
  respected : ∀ act next, step state act = some next → ∀ client conn, state.Held client conn →
    conn ∈ next.pool.destroyed → act = .remove client conn ∨ act = .exchangeRemove client conn
  /-- When `create` throws, only old idle entries are gone. -/
  thrown : ∀ act next now creation, step state act = some next →
    grabbing act = some (now, creation) → (state.pool.grab now creation).1 = none →
    next.leases = state.leases ∧
      next.pool.pool = state.pool.pool.filter fun info =>
        !info.tooOld now MyConnPool.maxIdleTime

theorem Inv.exclusive {state : State Client Conn} (inv : state.Inv) : state.Exclusive where
  single := by
    intro first second conn firstHolds secondHolds
    exact congrArg Prod.fst
      (List.inj_on_of_nodup_map inv.ledger.lent_nodup firstHolds.1 secondHolds.1 rfl)
  marked := by
    intro conn
    have lent : (∃ info ∈ state.pool.pool, info.conn = conn ∧ info.inUse = true) ↔
        conn ∈ state.leases.map Prod.snd := by
      rw [← inv.ledger.marked.mem_iff]
      simp [MyConnPool.inUseConns, MyConnPool.conns, and_assoc, and_comm]
    rw [lent]
    constructor
    · intro member
      obtain ⟨⟨client, conn⟩, leased, rfl⟩ := List.mem_map.mp member
      by_cases examined : state.Examined client conn
      · exact ⟨client, Or.inr examined⟩
      · exact ⟨client, Or.inl ⟨leased, examined⟩⟩
    · rintro ⟨client, held | examined⟩
      · exact List.mem_map_of_mem held.1
      · exact List.mem_map_of_mem (inv.examined client conn examined)
  accounted := by
    intro conn member
    have once := List.count_eq_one_of_mem inv.ledger.fresh member
    rw [inv.ledger.balanced.count_eq, List.count_append] at once
    exact once
  respected := by
    intro act next stepped client conn held destroyed
    have after := step_inv inv stepped
    have notLent := after.ledger.not_lent_of_destroyed destroyed
    rcases lease_kept stepped held.1 with kept | ⟨now, _, same⟩ | removed | exchanged |
      ⟨_, discarding⟩
    · exact absurd (List.mem_map_of_mem kept) notLent
    · rw [same] at destroyed
      exact absurd (List.mem_map_of_mem held.1)
        (inv.ledger.not_lent_of_destroyed destroyed)
    · exact Or.inl removed
    · exact Or.inr exchanged
    · exact absurd (Or.inr discarding) held.2
  thrown := by
    intro act next now creation stepped calls thrown
    exact step_thrown inv stepped calls thrown

/-- Lending is exclusive in every state that any number of clients can reach. -/
theorem run_exclusive {acts : List (Action Client Conn)} {state : State Client Conn}
    (run : exec step start acts = some state) : state.Exclusive :=
  (invariant_exec (fun _ _ _ => step_inv) start_inv run).exclusive

/-- Two clients: a release, a lost connection found by `safe_grab`, an exchange, and
a `create` that throws. -/
def twoClients : List (Action Bool Nat) :=
  [.grab false 0 (some (1, 0)), .grab true 1 (some (2, 1)), .release false 1 5,
    .safeGrab false 6 none, .isConnected false false, .safeRemove false,
    .safeGrab false 7 (some (3, 7)), .isConnected false true, .exchangeRemove true 2,
    .exchangeGrab true 400 none]

/-- The lending theorem at this run. -/
theorem twoClients_exclusive :
    ∃ state, exec step start twoClients = some state ∧ state.leases = [(false, 3)] ∧
      state.pool.destroyed = [1, 2] ∧ state.Exclusive := by
  have run : ∃ state, exec step start twoClients = some state ∧
      state.leases = [(false, 3)] ∧ state.pool.destroyed = [1, 2] := ⟨_, rfl, rfl, rfl⟩
  obtain ⟨state, returned, leases, destroyed⟩ := run
  exact ⟨state, returned, leases, destroyed, run_exclusive returned⟩

end State

end Cncpp.ConnPool

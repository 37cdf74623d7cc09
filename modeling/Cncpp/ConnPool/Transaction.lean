import Cncpp.ConnPool.Ledger
import Cncpp.Transition.Run
import Mathlib.Logic.Function.Basic

/-!
# Transactions of pooled connections

A `MysqlConn` remembers in `m_inTransaction` whether a transaction was begun and
neither committed nor rolled back.  Its destructor rolls such a transaction back,
but `release` does not, so a handle that is destroyed in the middle of a
transaction leaves it open for the next client.

Every call on a connection may throw: `checkConnection` where the connection is
lost, the query where the server refuses.  Whether the handle is then destroyed by
the exception or later is up to the client; a handle may be destroyed at any point.
`isConnected` always answers true, so `safe_grab` is one `grab`.
-/

namespace Cncpp.ConnPool.Transaction

open Cncpp.Transition

/-- The part of `class MysqlConn` that the transactions use. -/
structure MysqlConn where
  inTransaction : Bool
  deriving DecidableEq

namespace MysqlConn

/-- `MysqlConn(const MysqlConfig&)`. -/
def new : MysqlConn := ⟨false⟩

/-- A call that first checks the connection and then executes a query.  The result
says whether the call returned; otherwise it has thrown and changed nothing. -/
def query (conn : MysqlConn) (connected executed inTransaction : Bool) : Bool × MysqlConn :=
  if connected && executed then (true, ⟨inTransaction⟩) else (false, conn)

/-- `beginTransaction`. -/
def beginTransaction (conn : MysqlConn) (connected executed : Bool) : Bool × MysqlConn :=
  conn.query connected executed true

/-- `execute`. -/
def execute (conn : MysqlConn) (connected executed : Bool) : Bool × MysqlConn :=
  conn.query connected executed conn.inTransaction

/-- `commit`. -/
def commit (conn : MysqlConn) (connected executed : Bool) : Bool × MysqlConn :=
  conn.query connected executed false

/-- `rollback`. -/
def rollback (conn : MysqlConn) (connected executed : Bool) : Bool × MysqlConn :=
  conn.query connected executed false

/-- `~MysqlConn`, which swallows what `rollback` throws. -/
def destruct (conn : MysqlConn) (connected executed : Bool) : MysqlConn :=
  if conn.inTransaction then (conn.rollback connected executed).2 else conn

end MysqlConn

/-- The members that clients call through a handle. -/
inductive Call where
  | beginTransaction
  | execute
  | commit
  | rollback
  deriving DecidableEq

/-- The member that is called. -/
def Call.perform : Call → MysqlConn → Bool → Bool → Bool × MysqlConn
  | beginTransaction => MysqlConn.beginTransaction
  | execute => MysqlConn.execute
  | commit => MysqlConn.commit
  | rollback => MysqlConn.rollback

variable {Conn : Type}

/-- The pool, the connection of every living handle, and the connection objects. -/
structure State (Conn : Type) where
  pool : MyConnPool Conn
  handles : List Conn
  objects : Conn → MysqlConn
  /-- History: every connection that `grab` has returned, with its flag at that time. -/
  granted : List (Conn × Bool)

/-- The steps.  `reached` says for which connections a rollback in the destructor gets
through; handles are named by their positions. -/
inductive Action (Conn : Type) where
  | construct (now : Int) (creation : Option (Conn × Int)) (reached : Conn → Bool)
  | call (index : Nat) (call : Call) (connected executed : Bool)
  | destroy (index : Nat) (now : Int)

/-- No handle and no connection. -/
def start : State Conn :=
  ⟨MyConnPool.empty, [], fun _ => MysqlConn.new, []⟩

variable [DecidableEq Conn]

/-- The connection objects after the destructors of `gone`. -/
def destructAll (objects : Conn → MysqlConn) (gone : List Conn) (reached : Conn → Bool)
    (conn : Conn) : MysqlConn :=
  if conn ∈ gone then (objects conn).destruct (reached conn) true else objects conn

/-- A handle for the connection that `grab` returned, which may be a new object. -/
def State.hold (state : State Conn) (conn : Conn) (isNew : Bool) : State Conn :=
  let objects :=
    if isNew then Function.update state.objects conn MysqlConn.new else state.objects
  { state with
    handles := state.handles ++ [conn]
    objects := objects
    granted := state.granted ++ [(conn, (objects conn).inTransaction)] }

/-- One step. -/
def step : Step (State Conn) (Action Conn)
  | state, .construct now creation reached =>
      if state.pool.NewFor creation then
        let result := state.pool.grab now creation
        let gone := result.2.destroyed.drop state.pool.destroyed.length
        let grabbed := { state with
          pool := result.2
          objects := destructAll state.objects gone reached }
        match result.1 with
        | some conn => some (grabbed.hold conn (conn ∉ state.pool.created))
        | none => some grabbed
      else none
  | state, .call index call connected executed =>
      (state.handles[index]?).map fun conn =>
        { state with
          objects := Function.update state.objects conn
            (call.perform (state.objects conn) connected executed).2 }
  | state, .destroy index now =>
      (state.handles[index]?).map fun conn =>
        { state with
          pool := state.pool.release conn now
          handles := state.handles.eraseIdx index }

/-- Every connection that was granted was outside of a transaction. -/
def Clean (state : State Conn) : Prop :=
  ∀ entry ∈ state.granted, entry.2 = false

/-- A handle is destroyed outside of a transaction only. -/
def Keeps (state : State Conn) : Action Conn → Prop
  | .destroy index _ => ∀ conn ∈ state.handles[index]?, (state.objects conn).inTransaction = false
  | _ => True

/-- Besides, no connection that waits in the pool is in a transaction. -/
structure Inv (state : State Conn) : Prop where
  clean : Clean state
  ledger : state.pool.Ledger state.handles
  idle : ∀ conn ∈ MyConnPool.conns state.pool.pool, conn ∉ state.handles →
    (state.objects conn).inTransaction = false

omit [DecidableEq Conn] in
theorem start_inv : Inv (start : State Conn) where
  clean := by simp [Clean, start]
  ledger := MyConnPool.empty_ledger
  idle := by simp [start, MyConnPool.empty, MyConnPool.conns]

/-- A destructor does not begin a transaction. -/
theorem destructAll_eq_false {objects : Conn → MysqlConn} {conn : Conn}
    (outside : (objects conn).inTransaction = false) (gone : List Conn)
    (reached : Conn → Bool) :
    (destructAll objects gone reached conn).inTransaction = false := by
  unfold destructAll
  split
  · rw [MysqlConn.destruct, if_neg (by simp [outside])]
    exact outside
  · exact outside

/-- Constructing a handle from a connection outside of a transaction. -/
theorem Inv.hold {state : State Conn} (inv : Inv state) {after : MyConnPool Conn} {conn : Conn}
    {now : Int} {creation : Option (Conn × Int)} (new : state.pool.NewFor creation)
    (result : state.pool.grab now creation = (some conn, after))
    (ledger : after.Ledger (conn :: state.handles)) (gone : List Conn)
    (reached : Conn → Bool) :
    Inv ({ state with
      pool := after
      objects := destructAll state.objects gone reached }.hold conn
        (conn ∉ state.pool.created)) := by
  obtain ⟨origin, entries⟩ := MyConnPool.grab_origin result
  have notHeld : conn ∉ state.handles := (List.nodup_cons.mp ledger.lent_nodup).1
  constructor
  · intro entry member
    rcases List.mem_append.mp member with before | last
    · exact inv.clean entry before
    · rw [List.mem_singleton.mp last]
      by_cases isNew : conn ∉ state.pool.created
      · simp [isNew, MysqlConn.new]
      · have old : conn ∈ MyConnPool.conns state.pool.pool := by
          rcases origin with pooled | ⟨stamp, made⟩
          · exact pooled
          · exact absurd (new _ made) isNew
        simp only [isNew, decide_false, Bool.false_eq_true, if_false]
        exact destructAll_eq_false (inv.idle conn old notHeld) gone reached
  · exact ledger.perm (List.perm_append_singleton conn _).symm
  · intro other member free
    have different : other ≠ conn := by
      rintro rfl
      exact free (List.mem_append_right _ (List.mem_singleton_self _))
    have old : other ∈ MyConnPool.conns state.pool.pool := by
      rcases entries other member with same | pooled
      · exact absurd same different
      · exact pooled
    have unheld : other ∉ state.handles := fun held => free (List.mem_append_left _ held)
    have outside := destructAll_eq_false (inv.idle other old unheld) gone reached
    rw [State.hold]
    split
    · exact (congrArg MysqlConn.inTransaction (Function.update_of_ne different _ _)).trans outside
    · exact outside

/-- A step that satisfies `Keeps` keeps the invariant. -/
theorem step_inv {state next : State Conn} {act : Action Conn} (inv : Inv state)
    (keeps : Keeps state act) (stepped : step state act = some next) : Inv next := by
  cases act with
  | construct now creation reached =>
      simp only [step, Option.ite_none_right_eq_some] at stepped
      rcases stepped with ⟨new, stepped⟩
      rcases inv.ledger.grab now new with ⟨conn, after, result, ledger⟩ | ⟨_, result⟩
      · rw [result] at stepped
        cases stepped
        exact inv.hold new result ledger _ reached
      · rw [result] at stepped
        cases stepped
        refine ⟨inv.clean, inv.ledger.removeOldConnections now, fun other member free => ?_⟩
        have old := MyConnPool.conns_removeOldConnections state.pool now member
        exact destructAll_eq_false (inv.idle other old free) _ reached
  | call index call connected executed =>
      simp only [step, Option.map_eq_some_iff] at stepped
      rcases stepped with ⟨conn, found, rfl⟩
      refine ⟨inv.clean, inv.ledger, fun other member free => ?_⟩
      have different : other ≠ conn := by
        rintro rfl
        exact free (List.mem_of_getElem? found)
      change (Function.update state.objects conn _ other).inTransaction = false
      rw [Function.update_of_ne different]
      exact inv.idle other member free
  | destroy index now =>
      simp only [step, Option.map_eq_some_iff] at stepped
      rcases stepped with ⟨conn, found, rfl⟩
      obtain ⟨inside, rfl⟩ := List.getElem?_eq_some_iff.mp found
      have perm := (List.getElem_cons_eraseIdx_perm inside).symm
      refine ⟨inv.clean, (inv.ledger.perm perm).release now, fun other member free => ?_⟩
      have pooled : other ∈ MyConnPool.conns state.pool.pool := by
        rw [← MyConnPool.conns_releaseIn state.handles[index] now]
        exact member
      by_cases same : other = state.handles[index]
      · rw [same]
        exact keeps _ found
      · apply inv.idle other pooled
        intro held
        rcases List.mem_cons.mp (perm.mem_iff.mp held) with equal | later
        · exact same equal
        · exact free later

/-- In a run in which every handle is destroyed outside of a transaction, every
connection is granted outside of a transaction. -/
theorem run_clean {acts : List (Action Conn)} {final : State Conn}
    (keeps : Along step Keeps start acts) (run : exec step start acts = some final) :
    Clean final :=
  (invariant_along (fun _ _ _ => step_inv) start_inv keeps run).clean

/-- A committed transaction, and one whose commit throws and that is rolled back. -/
def finished : List (Action Nat) :=
  [.construct 0 (some (1, 0)) (fun _ => true), .call 0 .beginTransaction true true,
    .call 0 .commit true true, .destroy 0 1, .construct 2 none (fun _ => true),
    .call 0 .beginTransaction true true, .call 0 .commit true false, .call 0 .rollback true true,
    .destroy 0 3, .construct 4 none (fun _ => true)]

/-- The theorem at this run. -/
theorem finished_clean :
    ∃ final, exec step start finished = some final ∧ final.granted.length = 3 ∧ Clean final := by
  have run : ∃ final, exec step start finished = some final ∧ final.granted.length = 3 :=
    ⟨_, rfl, rfl⟩
  obtain ⟨final, returned, count⟩ := run
  refine ⟨final, returned, count, run_clean ?_ returned⟩
  refine (along_cons_iff rfl _).mpr ⟨trivial, (along_cons_iff rfl _).mpr ⟨trivial, ?_⟩⟩
  refine (along_cons_iff rfl _).mpr ⟨trivial, ?_⟩
  refine (along_cons_iff rfl _).mpr ⟨by rintro conn ⟨⟩; rfl, ?_⟩
  refine (along_cons_iff rfl _).mpr ⟨trivial, (along_cons_iff rfl _).mpr ⟨trivial, ?_⟩⟩
  refine (along_cons_iff rfl _).mpr ⟨trivial, (along_cons_iff rfl _).mpr ⟨trivial, ?_⟩⟩
  refine (along_cons_iff rfl _).mpr ⟨by rintro conn ⟨⟩; rfl, ?_⟩
  exact (along_cons_iff rfl _).mpr ⟨trivial, trivial⟩

/-- An exception between `beginTransaction` and `commit` destroys the handle. -/
def abandoned : List (Action Nat) :=
  [.construct 0 (some (1, 0)) (fun _ => true), .call 0 .beginTransaction true true,
    .call 0 .execute true false, .destroy 0 1, .construct 2 none (fun _ => true)]

/-- The next client starts inside of the transaction of the first. -/
theorem abandoned_not_clean :
    ∃ final, exec step start abandoned = some final ∧
      final.granted = [(1, false), (1, true)] ∧ ¬ Clean final :=
  ⟨_, rfl, rfl, fun clean => absurd (clean (1, true) (by decide)) (by decide)⟩

end Cncpp.ConnPool.Transaction

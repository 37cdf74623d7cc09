import Mathlib.Data.List.Basic
import Mathlib.Logic.Basic

/-!
# The connection pool

`MyConnPool` keeps its connections in a list of entries with a time stamp and an
`in_use` mark.  Each function below is the part of a member that runs under the
mutex.  The clock is an argument: `now` is what `time(0)` returned.

A connection is named by its creation, so a name is not used again after the
connection has been destroyed.
-/

namespace Cncpp.ConnPool

/-- `struct ConnectionInfo`. -/
structure ConnectionInfo (Conn : Type) where
  conn : Conn
  lastUsed : Int
  inUse : Bool
  deriving DecidableEq

variable {Conn : Type}

namespace ConnectionInfo

/-- `ConnectionInfo(CONN* c)`. -/
def new (conn : Conn) (now : Int) : ConnectionInfo Conn :=
  ⟨conn, now, true⟩

/-- `operator<`. -/
def lt (lhs rhs : ConnectionInfo Conn) : Bool :=
  if lhs.inUse = rhs.inUse then lhs.lastUsed < rhs.lastUsed else lhs.inUse

/-- `TooOld`, constructed with the age `tmax`. -/
def tooOld (now : Int) (tmax : Nat) (info : ConnectionInfo Conn) : Bool :=
  !info.inUse && info.lastUsed ≤ now - tmax

end ConnectionInfo

/-- `class MyConnPool`. -/
structure MyConnPool (Conn : Type) where
  pool : List (ConnectionInfo Conn)
  /-- History: the connections returned by `create`. -/
  created : List Conn
  /-- History: the connections passed to `destroy`. -/
  destroyed : List Conn
  deriving DecidableEq

namespace MyConnPool

/-- `max_idle_time`, in seconds. -/
def maxIdleTime : Nat := 300

/-- A pool without connections. -/
def empty : MyConnPool Conn :=
  ⟨[], [], []⟩

/-- The loops of `remove_old_connections` and `clear`: every entry that matches is
destroyed and erased.  The second result lists what was destroyed. -/
def removeIf (matching : ConnectionInfo Conn → Bool) :
    List (ConnectionInfo Conn) → List (ConnectionInfo Conn) × List Conn
  | [] => ([], [])
  | info :: rest =>
      let removed := removeIf matching rest
      if matching info then (removed.1, info.conn :: removed.2)
      else (info :: removed.1, removed.2)

/-- Run such a loop on the pool. -/
def removeMatching (pool : MyConnPool Conn) (matching : ConnectionInfo Conn → Bool) :
    MyConnPool Conn :=
  let removed := removeIf matching pool.pool
  { pool with
    pool := removed.1
    destroyed := pool.destroyed ++ removed.2 }

/-- `remove_old_connections`. -/
def removeOldConnections (pool : MyConnPool Conn) (now : Int) : MyConnPool Conn :=
  pool.removeMatching (ConnectionInfo.tooOld now maxIdleTime)

/-- `std::max_element` behind the first entry: the best entry so far with its
position, and the position of the next entry. -/
def maxElementFrom (best : ConnectionInfo Conn) (position next : Nat) :
    List (ConnectionInfo Conn) → ConnectionInfo Conn × Nat
  | [] => (best, position)
  | info :: rest =>
      if best.lt info then maxElementFrom info next (next + 1) rest
      else maxElementFrom best position (next + 1) rest

/-- `std::max_element`: the first of the greatest entries, with its position. -/
def maxElement : List (ConnectionInfo Conn) → Option (ConnectionInfo Conn × Nat)
  | [] => none
  | info :: rest => some (maxElementFrom info 0 1 rest)

/-- `find_mru`. -/
def findMru (pool : MyConnPool Conn) : Option (Conn × MyConnPool Conn) :=
  match maxElement pool.pool with
  | none => none
  | some (mru, position) =>
      if mru.inUse then none
      else some (mru.conn, { pool with pool := pool.pool.set position { mru with inUse := true } })

/-- `grab`.  `creation` is the connection that `create` would return, with the time
stamp of its entry, and `none` if `create` would throw. -/
def grab (pool : MyConnPool Conn) (now : Int) (creation : Option (Conn × Int)) :
    Option Conn × MyConnPool Conn :=
  let kept := pool.removeOldConnections now
  match kept.findMru with
  | some (mru, marked) => (some mru, marked)
  | none =>
      match creation with
      | none => (none, kept)
      | some (conn, stamp) =>
          (some conn, { kept with
            pool := kept.pool ++ [ConnectionInfo.new conn stamp]
            created := kept.created ++ [conn] })

/-- The connection that `create` would return has not been created before. -/
def NewFor (pool : MyConnPool Conn) (creation : Option (Conn × Int)) : Prop :=
  ∀ made ∈ creation, made.1 ∉ pool.created

instance [DecidableEq Conn] (pool : MyConnPool Conn) (creation : Option (Conn × Int)) :
    Decidable (pool.NewFor creation) :=
  match creation with
  | none => isTrue (by simp [NewFor])
  | some made => decidable_of_iff (made.1 ∉ pool.created) (by simp [NewFor])

section Search

variable [DecidableEq Conn]

/-- The loop of `release`. -/
def releaseIn (pc : Conn) (now : Int) :
    List (ConnectionInfo Conn) → List (ConnectionInfo Conn)
  | [] => []
  | info :: rest =>
      if info.conn = pc then { info with inUse := false, lastUsed := now } :: rest
      else info :: releaseIn pc now rest

/-- `release`. -/
def release (pool : MyConnPool Conn) (pc : Conn) (now : Int) : MyConnPool Conn :=
  { pool with pool := releaseIn pc now pool.pool }

/-- The loop of `remove`. -/
def removeIn (pc : Conn) :
    List (ConnectionInfo Conn) → List (ConnectionInfo Conn) × List Conn
  | [] => ([], [])
  | info :: rest =>
      if info.conn = pc then (rest, [info.conn])
      else
        let removed := removeIn pc rest
        (info :: removed.1, removed.2)

/-- `remove(const CONN* pc)`. -/
def remove (pool : MyConnPool Conn) (pc : Conn) : MyConnPool Conn :=
  let removed := removeIn pc pool.pool
  { pool with
    pool := removed.1
    destroyed := pool.destroyed ++ removed.2 }

end Search

/-- `clear`. -/
def clear (pool : MyConnPool Conn) (all : Bool) : MyConnPool Conn :=
  pool.removeMatching fun info => all || !info.inUse

/-- `shrink`. -/
def shrink (pool : MyConnPool Conn) : MyConnPool Conn :=
  pool.clear false

end MyConnPool

end Cncpp.ConnPool

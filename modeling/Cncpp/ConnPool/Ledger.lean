import Cncpp.ConnPool.Core
import Mathlib.Data.List.Perm.Basic

/-!
# The ledger of the connection pool

Every connection that was created is an entry of the pool or has been destroyed,
once, and the entries marked `in_use` are the connections that are lent out.
Each member of the pool keeps the ledger, with the change to the lent
connections that its name says.
-/

namespace Cncpp.ConnPool.MyConnPool

variable {Conn : Type}

/-- The connections of a list of entries. -/
def conns (infos : List (ConnectionInfo Conn)) : List Conn :=
  infos.map fun info => info.conn

/-- The connections of the entries marked `in_use`. -/
def inUseConns (infos : List (ConnectionInfo Conn)) : List Conn :=
  conns (infos.filter fun info => info.inUse)

theorem inUseConns_cons (info : ConnectionInfo Conn) (rest : List (ConnectionInfo Conn)) :
    inUseConns (info :: rest) =
      if info.inUse then info.conn :: inUseConns rest else inUseConns rest := by
  cases used : info.inUse <;> simp [inUseConns, conns, used]

theorem mem_conns_of_inUse {conn : Conn} {infos : List (ConnectionInfo Conn)}
    (member : conn ∈ inUseConns infos) : conn ∈ conns infos :=
  (List.filter_sublist.map _).subset member

/-- A marked connection of a list of distinct ones: it is the first entry, which is
marked, or one of the others. -/
theorem inUse_cons_cases {conn : Conn} {info : ConnectionInfo Conn}
    {rest : List (ConnectionInfo Conn)} (nodup : (conns (info :: rest)).Nodup)
    (used : conn ∈ inUseConns (info :: rest)) :
    (info.conn = conn ∧ info.inUse = true) ∨ (info.conn ≠ conn ∧ conn ∈ inUseConns rest) := by
  have new : info.conn ∉ conns rest := (List.nodup_cons.mp nodup).1
  rw [inUseConns_cons] at used
  cases marked : info.inUse with
  | true =>
      rw [marked, if_pos rfl] at used
      rcases List.mem_cons.mp used with rfl | later
      · exact Or.inl ⟨rfl, rfl⟩
      · right
        refine ⟨?_, later⟩
        rintro rfl
        exact new (mem_conns_of_inUse later)
  | false =>
      rw [marked, if_neg Bool.false_ne_true] at used
      right
      refine ⟨?_, used⟩
      rintro rfl
      exact new (mem_conns_of_inUse used)

/-- The pool's books for a list of lent connections. -/
structure Ledger (pool : MyConnPool Conn) (lent : List Conn) : Prop where
  /-- Exactly the lent connections are marked. -/
  marked : (inUseConns pool.pool).Perm lent
  /-- What was created is in the pool or destroyed. -/
  balanced : pool.created.Perm (conns pool.pool ++ pool.destroyed)
  /-- Nothing was created twice. -/
  fresh : pool.created.Nodup

theorem empty_ledger : Ledger (empty : MyConnPool Conn) [] where
  marked := List.Perm.nil
  balanced := List.Perm.nil
  fresh := List.nodup_nil

namespace Ledger

variable {pool : MyConnPool Conn} {lent : List Conn}

/-- In the pool and destroyed exclude each other, and nothing is in either twice. -/
theorem nodup (ledger : pool.Ledger lent) : (conns pool.pool ++ pool.destroyed).Nodup :=
  ledger.balanced.nodup_iff.mp ledger.fresh

theorem conns_nodup (ledger : pool.Ledger lent) : (conns pool.pool).Nodup :=
  (List.nodup_append.mp ledger.nodup).1

/-- No connection is lent twice. -/
theorem lent_nodup (ledger : pool.Ledger lent) : lent.Nodup := by
  apply ledger.marked.nodup_iff.mp
  exact ledger.conns_nodup.sublist (List.filter_sublist.map _)

/-- A lent connection is in the pool. -/
theorem lent_subset (ledger : pool.Ledger lent) {conn : Conn} (member : conn ∈ lent) :
    conn ∈ conns pool.pool :=
  mem_conns_of_inUse (ledger.marked.mem_iff.mpr member)

/-- The order in which the lent connections are listed does not matter. -/
theorem perm (ledger : pool.Ledger lent) {other : List Conn} (same : lent.Perm other) :
    pool.Ledger other where
  marked := ledger.marked.trans same
  balanced := ledger.balanced
  fresh := ledger.fresh

/-- A destroyed connection is not lent. -/
theorem not_lent_of_destroyed (ledger : pool.Ledger lent) {conn : Conn}
    (destroyed : conn ∈ pool.destroyed) : conn ∉ lent := by
  intro member
  exact (List.nodup_append.mp ledger.nodup).2.2 conn (ledger.lent_subset member) conn destroyed rfl

end Ledger

/-! ## Removing entries -/

theorem removeIf_fst (matching : ConnectionInfo Conn → Bool) (infos : List (ConnectionInfo Conn)) :
    (removeIf matching infos).1 = infos.filter fun info => !matching info := by
  induction infos with
  | nil => rfl
  | cons info rest ih =>
      by_cases found : matching info = true
      · simp [removeIf, found, ih]
      · simp [removeIf, found, ih]

theorem removeIf_perm (matching : ConnectionInfo Conn → Bool)
    (infos : List (ConnectionInfo Conn)) :
    (conns infos).Perm (conns (removeIf matching infos).1 ++ (removeIf matching infos).2) := by
  induction infos with
  | nil => exact List.Perm.nil
  | cons info rest ih =>
      by_cases found : matching info = true
      · simp only [removeIf, found, if_true]
        exact (ih.cons info.conn).trans List.perm_middle.symm
      · simp only [removeIf, found]
        exact ih.cons info.conn

/-- Removing idle entries only. -/
theorem Ledger.removeMatching {pool : MyConnPool Conn} {lent : List Conn}
    (ledger : pool.Ledger lent) {matching : ConnectionInfo Conn → Bool}
    (idle : ∀ info ∈ pool.pool, matching info = true → info.inUse = false) :
    (pool.removeMatching matching).Ledger lent where
  marked := by
    have same : inUseConns (removeIf matching pool.pool).1 = inUseConns pool.pool := by
      rw [removeIf_fst, inUseConns, List.filter_filter]
      apply congrArg conns
      apply List.filter_congr
      intro info member
      cases used : info.inUse with
      | false => rfl
      | true =>
          have kept : ¬ matching info = true := by
            intro found
            rw [idle info member found] at used
            contradiction
          simp [kept]
    exact (List.Perm.of_eq same).trans ledger.marked
  balanced := by
    have moved := (removeIf_perm matching pool.pool).append_right pool.destroyed
    apply (ledger.balanced.trans moved).trans
    rw [List.append_assoc]
    exact (List.perm_append_comm).append_left _
  fresh := ledger.fresh

theorem Ledger.removeOldConnections {pool : MyConnPool Conn} {lent : List Conn}
    (ledger : pool.Ledger lent) (now : Int) : (pool.removeOldConnections now).Ledger lent := by
  apply ledger.removeMatching
  intro info _ old
  simp only [ConnectionInfo.tooOld, Bool.and_eq_true, Bool.not_eq_true'] at old
  exact old.1

/-- `shrink` removes what is not lent. -/
theorem Ledger.shrink {pool : MyConnPool Conn} {lent : List Conn} (ledger : pool.Ledger lent) :
    pool.shrink.Ledger lent := by
  apply ledger.removeMatching
  intro info _ idle
  simpa using idle

/-- `clear` without restriction, while nothing is lent. -/
theorem Ledger.clear {pool : MyConnPool Conn} (ledger : pool.Ledger []) :
    (pool.clear true).Ledger [] := by
  apply ledger.removeMatching
  intro info member _
  cases used : info.inUse with
  | false => rfl
  | true =>
      have marked : info.conn ∈ inUseConns pool.pool :=
        List.mem_map_of_mem (List.mem_filter.mpr ⟨member, used⟩)
      rw [ledger.marked.mem_iff] at marked
      contradiction

/-! ## Lending -/

theorem maxElementFrom_getElem? {infos rest : List (ConnectionInfo Conn)}
    {best : ConnectionInfo Conn} {position next : Nat} (found : infos[position]? = some best)
    (remaining : infos.drop next = rest) :
    infos[(maxElementFrom best position next rest).2]? =
      some (maxElementFrom best position next rest).1 := by
  induction rest generalizing best position next with
  | nil => exact found
  | cons info rest ih =>
      have here : infos[next]? = some info := by
        rw [← List.head?_drop, remaining]
        rfl
      have later : infos.drop (next + 1) = rest := by
        rw [← List.tail_drop, remaining]
        rfl
      rw [maxElementFrom]
      split
      · exact ih here later
      · exact ih found later

/-- The greatest entry stands where `max_element` says. -/
theorem maxElement_getElem? {infos : List (ConnectionInfo Conn)} {mru : ConnectionInfo Conn}
    {position : Nat} (found : maxElement infos = some (mru, position)) :
    infos[position]? = some mru := by
  cases infos with
  | nil => contradiction
  | cons info rest =>
      have result : (info :: rest)[(maxElementFrom info 0 1 rest).2]? =
          some (maxElementFrom info 0 1 rest).1 := maxElementFrom_getElem? rfl rfl
      rw [maxElement, Option.some.injEq] at found
      rw [found] at result
      exact result

/-- Marking an idle entry. -/
theorem marked_set {infos : List (ConnectionInfo Conn)} {mru : ConnectionInfo Conn}
    {position : Nat} (found : infos[position]? = some mru) (idle : mru.inUse = false) :
    conns (infos.set position { mru with inUse := true }) = conns infos ∧
      (inUseConns (infos.set position { mru with inUse := true })).Perm
        (mru.conn :: inUseConns infos) := by
  induction infos generalizing position with
  | nil => contradiction
  | cons info rest ih =>
      cases position with
      | zero =>
          cases found
          simp [conns, inUseConns, idle]
      | succ position =>
          rw [List.getElem?_cons_succ] at found
          obtain ⟨same, perm⟩ := ih found
          constructor
          · exact congrArg (info.conn :: ·) same
          · cases used : info.inUse with
            | false => simpa [inUseConns, used] using perm
            | true =>
                have swapped := (perm.cons info.conn).trans (List.Perm.swap _ _ _)
                simpa [inUseConns, conns, used] using swapped

/-- `find_mru` in detail. -/
theorem findMru_eq_some {pool marked : MyConnPool Conn} {conn : Conn}
    (found : pool.findMru = some (conn, marked)) :
    ∃ mru position, pool.pool[position]? = some mru ∧ mru.inUse = false ∧ mru.conn = conn ∧
      marked = { pool with pool := pool.pool.set position { mru with inUse := true } } := by
  unfold MyConnPool.findMru at found
  cases greatest : maxElement pool.pool with
  | none =>
      rw [greatest] at found
      contradiction
  | some best =>
      rcases best with ⟨mru, position⟩
      simp only [greatest, Option.ite_none_left_eq_some, Option.some.injEq, Prod.mk.injEq] at found
      rcases found with ⟨idle, same, rfl⟩
      exact ⟨mru, position, maxElement_getElem? greatest, by simpa using idle, same, rfl⟩

/-- `find_mru` lends out the entry it finds. -/
theorem Ledger.findMru {pool marked : MyConnPool Conn} {lent : List Conn} {conn : Conn}
    (ledger : pool.Ledger lent) (found : pool.findMru = some (conn, marked)) :
    marked.Ledger (conn :: lent) := by
  obtain ⟨mru, position, there, idle, rfl, rfl⟩ := findMru_eq_some found
  obtain ⟨same, perm⟩ := marked_set there idle
  exact
    { marked := perm.trans (ledger.marked.cons mru.conn)
      balanced := by
        change pool.created.Perm (conns (pool.pool.set position _) ++ pool.destroyed)
        rw [same]
        exact ledger.balanced
      fresh := ledger.fresh }

/-- `create` and the entry for its result. -/
theorem Ledger.create {pool : MyConnPool Conn} {lent : List Conn} {conn : Conn}
    (ledger : pool.Ledger lent) (new : conn ∉ pool.created) (stamp : Int) :
    Ledger { pool with
      pool := pool.pool ++ [ConnectionInfo.new conn stamp]
      created := pool.created ++ [conn] } (conn :: lent) where
  marked := by
    have appended : inUseConns (pool.pool ++ [ConnectionInfo.new conn stamp]) =
        inUseConns pool.pool ++ [conn] := by
      simp [inUseConns, conns, ConnectionInfo.new]
    exact (List.Perm.of_eq appended).trans
      ((List.perm_append_singleton conn _).trans (ledger.marked.cons conn))
  balanced := by
    have appended : conns (pool.pool ++ [ConnectionInfo.new conn stamp]) =
        conns pool.pool ++ [conn] := by
      simp [conns, ConnectionInfo.new]
    change (pool.created ++ [conn]).Perm (conns (pool.pool ++ _) ++ pool.destroyed)
    rw [appended, List.append_assoc]
    exact (List.perm_append_singleton conn _).trans
      ((ledger.balanced.cons conn).trans List.perm_middle.symm)
  fresh := by
    apply (List.perm_append_singleton conn _).nodup_iff.mpr
    exact List.nodup_cons.mpr ⟨new, ledger.fresh⟩

/-- `grab` lends out a connection, or `create` throws and nothing has happened but
the removal of old entries. -/
theorem Ledger.grab {pool : MyConnPool Conn} {lent : List Conn} (ledger : pool.Ledger lent)
    (now : Int) {creation : Option (Conn × Int)} (new : pool.NewFor creation) :
    (∃ conn after, pool.grab now creation = (some conn, after) ∧ after.Ledger (conn :: lent)) ∨
      (creation = none ∧ pool.grab now creation = (none, pool.removeOldConnections now)) := by
  have kept := ledger.removeOldConnections now
  cases found : (pool.removeOldConnections now).findMru with
  | some mru =>
      left
      exact ⟨mru.1, mru.2, by simp only [MyConnPool.grab, found], kept.findMru found⟩
  | none =>
      cases creation with
      | none =>
          right
          exact ⟨rfl, by simp only [MyConnPool.grab, found]⟩
      | some made =>
          left
          exact ⟨made.1, _, by simp only [MyConnPool.grab, found],
            kept.create (new made rfl) made.2⟩

/-- What `remove_old_connections` keeps. -/
theorem removeOldConnections_pool (pool : MyConnPool Conn) (now : Int) :
    (pool.removeOldConnections now).pool =
      pool.pool.filter fun info => !info.tooOld now maxIdleTime :=
  removeIf_fst _ _

theorem conns_removeOldConnections (pool : MyConnPool Conn) (now : Int) {conn : Conn}
    (member : conn ∈ conns (pool.removeOldConnections now).pool) : conn ∈ conns pool.pool := by
  rw [removeOldConnections_pool] at member
  exact (List.filter_sublist.map _).subset member

/-- `grab` returns an entry of the pool or what `create` returned, and adds no other
entry. -/
theorem grab_origin {pool after : MyConnPool Conn} {now : Int} {creation : Option (Conn × Int)}
    {conn : Conn} (result : pool.grab now creation = (some conn, after)) :
    (conn ∈ conns pool.pool ∨ ∃ stamp, creation = some (conn, stamp)) ∧
      ∀ other ∈ conns after.pool, other = conn ∨ other ∈ conns pool.pool := by
  cases found : (pool.removeOldConnections now).findMru with
  | some mru =>
      rcases mru with ⟨mru, marked⟩
      simp only [grab, found, Prod.mk.injEq, Option.some.injEq] at result
      rcases result with ⟨rfl, rfl⟩
      obtain ⟨info, position, there, idle, rfl, rfl⟩ := findMru_eq_some found
      obtain ⟨same, _⟩ := marked_set there idle
      constructor
      · left
        apply conns_removeOldConnections pool now
        exact List.mem_map_of_mem (List.mem_of_getElem? there)
      · intro other member
        right
        apply conns_removeOldConnections pool now
        rw [← same]
        exact member
  | none =>
      cases creation with
      | none =>
          simp only [grab, found] at result
          cases result
      | some made =>
          simp only [grab, found] at result
          cases result
          refine ⟨Or.inr ⟨made.2, rfl⟩, fun other member => ?_⟩
          simp only [conns, List.map_append, List.mem_append, List.map_cons, List.map_nil,
            List.mem_singleton] at member
          rcases member with old | same
          · exact Or.inr (conns_removeOldConnections pool now old)
          · exact Or.inl same

/-! ## Returning -/

section Search

variable [DecidableEq Conn]

theorem conns_releaseIn (pc : Conn) (now : Int) (infos : List (ConnectionInfo Conn)) :
    conns (releaseIn pc now infos) = conns infos := by
  induction infos with
  | nil => rfl
  | cons info rest ih =>
      rw [releaseIn]
      split
      · rfl
      · exact congrArg (info.conn :: ·) ih

/-- Where the connections are distinct, `release` unmarks the one it is given. -/
theorem inUseConns_releaseIn {pc : Conn} (now : Int) {infos : List (ConnectionInfo Conn)}
    (nodup : (conns infos).Nodup) (used : pc ∈ inUseConns infos) :
    (pc :: inUseConns (releaseIn pc now infos)).Perm (inUseConns infos) := by
  induction infos with
  | nil => contradiction
  | cons info rest ih =>
      rcases inUse_cons_cases nodup used with ⟨rfl, marked⟩ | ⟨different, later⟩
      · rw [releaseIn, if_pos rfl, inUseConns_cons, inUseConns_cons, marked]
        exact List.Perm.refl _
      · have perm := ih (List.nodup_cons.mp nodup).2 later
        rw [releaseIn, if_neg different, inUseConns_cons, inUseConns_cons]
        split
        · exact (List.Perm.swap _ _ _).trans (perm.cons info.conn)
        · exact perm

/-- `release` of a lent connection. -/
theorem Ledger.release {pool : MyConnPool Conn} {lent : List Conn} {pc : Conn}
    (ledger : pool.Ledger (pc :: lent)) (now : Int) : (pool.release pc now).Ledger lent where
  marked := by
    have used : pc ∈ inUseConns pool.pool := ledger.marked.mem_iff.mpr List.mem_cons_self
    exact ((inUseConns_releaseIn now ledger.conns_nodup used).trans ledger.marked).cons_inv
  balanced := by
    change pool.created.Perm (conns (releaseIn pc now pool.pool) ++ pool.destroyed)
    rw [conns_releaseIn]
    exact ledger.balanced
  fresh := ledger.fresh

/-- `remove` takes out the entry of the connection it is given. -/
theorem removeIn_perm {pc : Conn} {infos : List (ConnectionInfo Conn)}
    (nodup : (conns infos).Nodup) (used : pc ∈ inUseConns infos) :
    (removeIn pc infos).2 = [pc] ∧
      (pc :: conns (removeIn pc infos).1).Perm (conns infos) ∧
      (pc :: inUseConns (removeIn pc infos).1).Perm (inUseConns infos) := by
  induction infos with
  | nil => contradiction
  | cons info rest ih =>
      rcases inUse_cons_cases nodup used with ⟨rfl, marked⟩ | ⟨different, later⟩
      · rw [removeIn, if_pos rfl, inUseConns_cons, marked]
        exact ⟨rfl, List.Perm.refl _, List.Perm.refl _⟩
      · obtain ⟨destroyed, entries, marks⟩ := ih (List.nodup_cons.mp nodup).2 later
        rw [removeIn, if_neg different, inUseConns_cons, inUseConns_cons]
        refine ⟨destroyed, (List.Perm.swap _ _ _).trans (entries.cons info.conn), ?_⟩
        split
        · exact (List.Perm.swap _ _ _).trans (marks.cons info.conn)
        · exact marks

/-- `remove` of a lent connection. -/
theorem Ledger.remove {pool : MyConnPool Conn} {lent : List Conn} {pc : Conn}
    (ledger : pool.Ledger (pc :: lent)) : (pool.remove pc).Ledger lent := by
  have used : pc ∈ inUseConns pool.pool := ledger.marked.mem_iff.mpr List.mem_cons_self
  obtain ⟨destroyed, entries, marks⟩ := removeIn_perm ledger.conns_nodup used
  constructor
  · exact (marks.trans ledger.marked).cons_inv
  · change pool.created.Perm (conns (removeIn pc pool.pool).1 ++ (pool.destroyed ++
      (removeIn pc pool.pool).2))
    have moved := (entries.symm.append_right pool.destroyed)
    rw [destroyed, ← List.append_assoc]
    exact (ledger.balanced.trans moved).trans (List.perm_append_singleton pc _).symm
  · exact ledger.fresh

end Search

end Cncpp.ConnPool.MyConnPool

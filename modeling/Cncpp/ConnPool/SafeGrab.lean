import Cncpp.ConnPool.Grab
import Cncpp.Loop.Bounded

/-!
# `safe_grab`

`safe_grab` grabs connections and removes those that are not connected until one is.  Without
another client every round but the last takes a connection that is not connected out of the
pool, and a created connection ends the loop.
-/

namespace Cncpp.ConnPool.MyConnPool

open Cncpp.Loop

variable {Conn : Type}

/-- The state of the loop: the pool and the number of calls of `grab`. -/
structure Grabbing (Conn : Type) where
  pool : MyConnPool Conn
  rounds : Nat

/-- What a run of the loop ends with: the connection, or none where `create` has thrown, the
number of calls of `grab`, and the pool. -/
abbrev Grabbed (Conn : Type) := Option Conn × Nat × MyConnPool Conn

section Loop

variable [DecidableEq Conn]

/-- One round of `safe_grab`.  `now` and `creation` are the clock and the outcome of `create`
in each round, and `connected` is what `isConnected` answers. -/
def safeGrabPass (connected : Conn → Bool) (now : Nat → Int) (creation : Nat → Option (Conn × Int))
    (state : Grabbing Conn) : Pass (Grabbing Conn) (Grabbed Conn) :=
  match state.pool.grab (now state.rounds) (creation state.rounds) with
  | (none, after) => .leave (none, state.rounds + 1, after)
  | (some pc, after) =>
      if connected pc then .leave (some pc, state.rounds + 1, after)
      else .again ⟨after.remove pc, state.rounds + 1⟩

/-- `safe_grab`.  The bound on the rounds is one for each idle entry and one more; `none`
would mean that it does not suffice. -/
def safeGrab (pool : MyConnPool Conn) (connected : Conn → Bool) (now : Nat → Int)
    (creation : Nat → Option (Conn × Int)) : Option (Grabbed Conn) :=
  run (safeGrabPass connected now creation) (pool.idle.length + 1) ⟨pool, 0⟩

/-- `remove` takes out the one entry of its connection. -/
theorem removeIn_split {before after : List (ConnectionInfo Conn)} {info : ConnectionInfo Conn}
    (new : info.conn ∉ conns before) :
    removeIn info.conn (before ++ info :: after) = (before ++ after, [info.conn]) := by
  induction before with
  | nil => rw [List.nil_append, removeIn, if_pos rfl, List.nil_append]
  | cons first before ih =>
      have different : first.conn ≠ info.conn := by
        intro same
        exact new (same ▸ List.mem_cons_self)
      have later : info.conn ∉ conns before := fun member => new (List.mem_cons_of_mem _ member)
      rw [List.cons_append, removeIn, if_neg different, ih later, List.cons_append]

/-- Removing the connection that has just been lent takes out its entry. -/
theorem remove_withMarked {pool : MyConnPool Conn} {before after : List (ConnectionInfo Conn)}
    {mru : ConnectionInfo Conn} (split : pool.pool = before ++ mru :: after)
    (nodup : (conns pool.pool).Nodup) :
    (pool.withMarked before mru after).remove mru.conn =
      { pool with pool := before ++ after, destroyed := pool.destroyed ++ [mru.conn] } := by
  have new : mru.conn ∉ conns before := by
    intro member
    rw [split, conns, List.map_append, List.map_cons] at nodup
    exact (List.nodup_append.mp nodup).2.2 _ member _ List.mem_cons_self rfl
  have removed := @removeIn_split Conn _ before after { mru with inUse := true } new
  rw [MyConnPool.remove, withMarked, removed]

end Loop

/-! ## What the rounds keep -/

/-- The entries of a pool that are marked. -/
def lent (pool : MyConnPool Conn) : List (ConnectionInfo Conn) :=
  pool.pool.filter fun info => info.inUse

/-- A connection that `safe_grab` may destroy: it was idle, and it was too old in one of the
rounds or is not connected. -/
def Discardable (pool : MyConnPool Conn) (connected : Conn → Bool) (now : Nat → Int)
    (rounds : Nat) (conn : Conn) : Prop :=
  ∃ info ∈ pool.pool, info.conn = conn ∧ info.inUse = false ∧
    ((∃ round < rounds, info.lastUsed ≤ now round - maxIdleTime) ∨ connected conn = false)

theorem Discardable.mono {pool : MyConnPool Conn} {connected : Conn → Bool} {now : Nat → Int}
    {rounds more : Nat} {conn : Conn} (discardable : Discardable pool connected now rounds conn)
    (later : rounds ≤ more) : Discardable pool connected now more conn := by
  obtain ⟨info, member, same, isIdle, ⟨round, before, old⟩ | dead⟩ := discardable
  · exact ⟨info, member, same, isIdle, Or.inl ⟨round, Nat.lt_of_lt_of_le before later, old⟩⟩
  · exact ⟨info, member, same, isIdle, Or.inr dead⟩

/-- The pool of a round, compared with the pool at the beginning. -/
structure Thinned (start : MyConnPool Conn) (connected : Conn → Bool) (now : Nat → Int)
    (rounds : Nat) (pool : MyConnPool Conn) : Prop where
  /-- Only marked entries are kept in any case, in their order. -/
  kept : start.lent.Sublist pool.pool
  destroyed : ∃ gone, pool.destroyed = start.destroyed ++ gone ∧
    ∀ conn ∈ gone, Discardable start connected now rounds conn

/-- The invariant of the loop. -/
structure GrabbingInv (start : MyConnPool Conn) (connected : Conn → Bool) (now : Nat → Int)
    (state : Grabbing Conn) : Prop where
  thinned : Thinned start connected now state.rounds state.pool
  sublist : state.pool.pool.Sublist start.pool
  count : state.rounds + state.pool.idle.length ≤ start.idle.length

theorem grabbingInv_start (pool : MyConnPool Conn) (connected : Conn → Bool) (now : Nat → Int) :
    GrabbingInv pool connected now ⟨pool, 0⟩ where
  thinned := ⟨List.filter_sublist, [], (List.append_nil _).symm, by simp⟩
  sublist := List.Sublist.refl _
  count := Nat.le_of_eq (Nat.zero_add _)

theorem mem_lent {pool : MyConnPool Conn} {info : ConnectionInfo Conn} :
    info ∈ pool.lent ↔ info ∈ pool.pool ∧ info.inUse = true := by
  simp [lent]

/-- Taking out entries that are not marked keeps the marked ones. -/
theorem lent_sublist_filter {start : MyConnPool Conn} {infos : List (ConnectionInfo Conn)}
    (kept : start.lent.Sublist infos) (keep : ConnectionInfo Conn → Bool)
    (marked : ∀ info, info.inUse = true → keep info = true) :
    start.lent.Sublist (infos.filter keep) := by
  have all : start.lent.filter keep = start.lent := by
    rw [List.filter_eq_self]
    intro info member
    exact marked info (mem_lent.mp member).2
  rw [← all]
  exact kept.filter keep

theorem lent_sublist_split {start : MyConnPool Conn} {before after : List (ConnectionInfo Conn)}
    {info : ConnectionInfo Conn} (kept : start.lent.Sublist (before ++ info :: after))
    (isIdle : info.inUse = false) : start.lent.Sublist (before ++ after) := by
  have marked := lent_sublist_filter kept (fun info => info.inUse) fun _ used => used
  rw [List.filter_append, List.filter_cons_of_neg (by rw [isIdle]; decide),
    ← List.filter_append] at marked
  exact marked.trans List.filter_sublist

theorem idle_removeOldConnections_le (pool : MyConnPool Conn) (now : Int) :
    (pool.removeOldConnections now).idle.length ≤ pool.idle.length := by
  rw [idle, removeOldConnections_pool]
  exact (List.filter_sublist.filter _).length_le

/-- Removing the old entries keeps what the rounds keep. -/
theorem GrabbingInv.removeOldConnections {start : MyConnPool Conn} {connected : Conn → Bool}
    {now : Nat → Int} {state : Grabbing Conn} (inv : GrabbingInv start connected now state) :
    Thinned start connected now (state.rounds + 1)
        (state.pool.removeOldConnections (now state.rounds)) ∧
      (state.pool.removeOldConnections (now state.rounds)).pool.Sublist start.pool ∧
      state.rounds + (state.pool.removeOldConnections (now state.rounds)).idle.length ≤
        start.idle.length := by
  obtain ⟨gone, destroyed, discardable⟩ := inv.thinned.destroyed
  refine ⟨⟨?_, gone ++ conns (state.pool.pool.filter
    (ConnectionInfo.tooOld (now state.rounds) maxIdleTime)), ?_, ?_⟩, ?_, ?_⟩
  · rw [removeOldConnections_pool]
    apply lent_sublist_filter inv.thinned.kept _
    intro info used
    rw [ConnectionInfo.tooOld, used]
    rfl
  · rw [← List.append_assoc, ← destroyed]
    exact congrArg (state.pool.destroyed ++ ·) (removeIf_snd _ _)
  · intro conn member
    rcases List.mem_append.mp member with earlier | old
    · exact (discardable conn earlier).mono (Nat.le_succ _)
    · obtain ⟨info, expired, same⟩ := List.mem_map.mp old
      obtain ⟨listed, tooOld⟩ := List.mem_filter.mp expired
      obtain ⟨isIdle, before⟩ := (tooOld_iff _ _ _).mp tooOld
      exact ⟨info, inv.sublist.subset listed, same, isIdle,
        Or.inl ⟨state.rounds, Nat.lt_succ_self _, before⟩⟩
  · rw [removeOldConnections_pool]
    exact List.filter_sublist.trans inv.sublist
  · have fewer := idle_removeOldConnections_le state.pool (now state.rounds)
    have count := inv.count
    omega

/-! ## The result -/

/-- What `safe_grab` ends with. -/
structure SafelyGrabbed (start : MyConnPool Conn) (connected : Conn → Bool) (now : Nat → Int)
    (creation : Nat → Option (Conn × Int)) (result : Grabbed Conn) : Prop where
  rounds : result.2.1 ≤ start.idle.length + 1
  thrown : result.1 = none → creation (result.2.1 - 1) = none
  returned : ∀ conn, result.1 = some conn → connected conn = true ∧
    ∃ info ∈ result.2.2.pool, info.conn = conn ∧ info.inUse = true
  thinned : Thinned start connected now result.2.1 result.2.2

section Rounds

variable [DecidableEq Conn] {start : MyConnPool Conn} {connected : Conn → Bool} {now : Nat → Int}
  {creation : Nat → Option (Conn × Int)} {state : Grabbing Conn}

/-- A round in which an idle entry is left: it is lent, or removed again. -/
theorem safeGrabPass_of_idle (nodup : (conns start.pool).Nodup)
    (inv : GrabbingInv start connected now state)
    (waiting : (state.pool.removeOldConnections (now state.rounds)).idle ≠ []) :
    (safeGrabPass connected now creation state).Meets
      (fun next => GrabbingInv start connected now next ∧
        next.pool.idle.length < state.pool.idle.length)
      (SafelyGrabbed start connected now creation) := by
  obtain ⟨thinned, sublist, count⟩ := inv.removeOldConnections
  obtain ⟨before, mru, after, split, isIdle, _, grabbed⟩ :=
    grab_of_idle waiting (creation state.rounds)
  have kept := thinned.kept
  rw [split] at kept sublist
  have others := lent_sublist_split kept isIdle
  have length : (state.pool.removeOldConnections (now state.rounds)).idle.length =
      ((before ++ after).filter fun info => !info.inUse).length + 1 := by
    rw [idle, split, List.filter_append, List.filter_cons_of_pos (by rw [isIdle]; rfl),
      List.filter_append, List.length_append, List.length_append, List.length_cons, Nat.add_assoc]
  have fewer := idle_removeOldConnections_le state.pool (now state.rounds)
  unfold safeGrabPass
  rw [grabbed]
  by_cases alive : connected mru.conn = true
  · simp only [alive, if_true, Pass.meets_leave]
    refine ⟨by change state.rounds + 1 ≤ _; omega, fun thrown => absurd thrown (by simp),
      ?_, ?_, ?_⟩
    · rintro conn same
      cases same
      exact ⟨alive, { mru with inUse := true }, by simp [withMarked], rfl, rfl⟩
    · exact others.trans ((List.Sublist.refl before).append (List.sublist_cons_self _ _))
    · exact thinned.destroyed
  · have distinct : (conns (state.pool.removeOldConnections (now state.rounds)).pool).Nodup := by
      rw [split]
      exact (sublist.map _).nodup nodup
    obtain ⟨gone, destroyed, discardable⟩ := thinned.destroyed
    simp only [alive, Bool.false_eq_true, if_false, Pass.meets_again,
      remove_withMarked split distinct]
    refine ⟨⟨⟨others, gone ++ [mru.conn], ?_, ?_⟩, ?_, ?_⟩, ?_⟩
    · rw [← List.append_assoc, ← destroyed]
    · intro conn member
      rcases List.mem_append.mp member with earlier | same
      · exact discardable conn earlier
      · obtain rfl := List.mem_singleton.mp same
        exact ⟨mru, sublist.subset (by simp), rfl, isIdle, Or.inr (by simpa using alive)⟩
    · exact (List.Sublist.append_left (List.sublist_cons_self _ _) _).trans sublist
    · change state.rounds + 1 + ((before ++ after).filter fun info => !info.inUse).length ≤ _
      omega
    · change ((before ++ after).filter fun info => !info.inUse).length < _
      omega

/-- A round in which no idle entry is left is the last one. -/
theorem safeGrabPass_of_no_idle (inv : GrabbingInv start connected now state)
    (working : ∀ round made, creation round = some made → connected made.1 = true)
    (noIdle : (state.pool.removeOldConnections (now state.rounds)).idle = []) :
    (safeGrabPass connected now creation state).Meets
      (fun next => GrabbingInv start connected now next ∧
        next.pool.idle.length < state.pool.idle.length)
      (SafelyGrabbed start connected now creation) := by
  obtain ⟨thinned, _, count⟩ := inv.removeOldConnections
  unfold safeGrabPass
  cases made : creation state.rounds with
  | none =>
      have thrown : state.pool.grab (now state.rounds) none =
          (none, state.pool.removeOldConnections (now state.rounds)) := by
        simp only [grab, findMru_of_no_idle noIdle]
      rw [thrown]
      refine ⟨?_, fun _ => made, fun conn same => absurd same (by simp), thinned⟩
      change state.rounds + 1 ≤ _
      omega
  | some result =>
      obtain ⟨conn, stamp⟩ := result
      rw [grab_of_no_idle noIdle]
      simp only [working _ _ made, if_true, Pass.meets_leave]
      refine ⟨?_, fun thrown => absurd thrown (by simp), ?_, ?_, thinned.destroyed⟩
      · change state.rounds + 1 ≤ _
        omega
      · rintro other same
        cases same
        exact ⟨working _ _ made, ⟨conn, stamp, true⟩, by simp [withCreated], rfl, rfl⟩
      · exact thinned.kept.trans (List.sublist_append_left _ _)

/-- Without another client `safe_grab` returns after at most one more call of `grab` than
there are idle entries, with a connection that is connected and marked, unless `create`
throws.  What it has destroyed was idle, and too old or not connected; marked entries are as
they were. -/
theorem safeGrab_returns (pool : MyConnPool Conn) (nodup : (conns pool.pool).Nodup)
    (connected : Conn → Bool) (now : Nat → Int) (creation : Nat → Option (Conn × Int))
    (working : ∀ round made, creation round = some made → connected made.1 = true) :
    ∃ result, pool.safeGrab connected now creation = some result ∧
      SafelyGrabbed pool connected now creation result := by
  have progress : ∀ state : Grabbing Conn, GrabbingInv pool connected now state →
      (safeGrabPass connected now creation state).Meets
        (fun next => GrabbingInv pool connected now next ∧
          next.pool.idle.length < state.pool.idle.length)
        (SafelyGrabbed pool connected now creation) := by
    intro state inv
    by_cases noIdle : (state.pool.removeOldConnections (now state.rounds)).idle = []
    · exact safeGrabPass_of_no_idle inv working noIdle
    · exact safeGrabPass_of_idle nodup inv noIdle
  exact run_total (fun state => state.pool.idle.length) progress
    (grabbingInv_start pool connected now) (Nat.lt_succ_self _)

end Rounds

/-- A lent connection, and idle ones that are lost, too old, and usable. -/
def mixedPool : MyConnPool Nat :=
  ⟨[⟨1, 950, false⟩, ⟨2, 900, false⟩, ⟨3, 100, true⟩, ⟨4, 200, false⟩], [1, 2, 3, 4], []⟩

/-- The theorem at this pool. -/
theorem mixedPool_returns :
    ∃ result, mixedPool.safeGrab (fun conn => conn != 1) (fun _ => 1000)
        (fun round => some (10 + round, 1000)) = some result ∧
      SafelyGrabbed mixedPool (fun conn => conn != 1) (fun _ => 1000)
        (fun round => some (10 + round, 1000)) result := by
  refine safeGrab_returns mixedPool (by decide) _ _ _ ?_
  rintro round made same
  cases same
  have different : 10 + round ≠ 1 := by omega
  simpa using different

end Cncpp.ConnPool.MyConnPool

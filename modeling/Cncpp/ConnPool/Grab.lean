import Cncpp.ConnPool.Ledger
import Mathlib.Order.Defs.Unbundled

/-!
# Which connection is lent

`grab` destroys the idle entries that are too old, lends the most recently used idle entry
that is left, and creates a connection only if there is none.  `find_mru` takes the greatest
entry for `operator<`, which puts every idle entry above every lent one.
-/

namespace Cncpp.ConnPool

variable {Conn : Type}

namespace ConnectionInfo

/-- `operator<` in words: lent entries are below idle ones, and otherwise the time decides. -/
theorem lt_iff (lhs rhs : ConnectionInfo Conn) :
    lhs.lt rhs = true ↔ (lhs.inUse = true ∧ rhs.inUse = false) ∨
      (lhs.inUse = rhs.inUse ∧ lhs.lastUsed < rhs.lastUsed) := by
  cases left : lhs.inUse with
  | true => cases right : rhs.inUse <;> simp [lt, left, right]
  | false => cases right : rhs.inUse <;> simp [lt, left, right]

/-- Between two entries of which one is below the other, every entry is above the one or
below the other. -/
theorem lt_or_lt {first third : ConnectionInfo Conn} (below : first.lt third = true)
    (second : ConnectionInfo Conn) : first.lt second = true ∨ second.lt third = true := by
  simp only [lt_iff] at below ⊢
  rcases below with ⟨used, idle⟩ | ⟨same, less⟩
  · cases middle : second.inUse with
    | true => exact Or.inr (Or.inl ⟨rfl, idle⟩)
    | false => exact Or.inl (Or.inl ⟨used, rfl⟩)
  · by_cases level : first.inUse = second.inUse
    · by_cases early : first.lastUsed < second.lastUsed
      · exact Or.inl (Or.inr ⟨level, early⟩)
      · exact Or.inr (Or.inr ⟨level ▸ same, Int.lt_of_le_of_lt (Int.not_lt.mp early) less⟩)
    · cases middle : second.inUse with
      | true =>
          rw [middle, Bool.not_eq_true] at level
          exact Or.inr (Or.inl ⟨rfl, same ▸ level⟩)
      | false =>
          rw [middle, Bool.not_eq_false] at level
          exact Or.inl (Or.inl ⟨level, rfl⟩)

theorem not_lt_trans {first second third : ConnectionInfo Conn}
    (left : ¬first.lt second = true) (right : ¬second.lt third = true) :
    ¬first.lt third = true := by
  intro below
  rcases lt_or_lt below second with before | after
  · exact left before
  · exact right after

/-- `operator<` is a strict weak ordering. -/
instance : IsStrictWeakOrder (ConnectionInfo Conn) (fun lhs rhs => lhs.lt rhs = true) where
  irrefl info := by
    rw [lt_iff]
    rintro (⟨used, idle⟩ | ⟨_, less⟩)
    · rw [used] at idle
      contradiction
    · exact Int.lt_irrefl _ less
  trans first second third := by
    simp only [lt_iff]
    rintro (⟨used, idle⟩ | ⟨same, less⟩) (⟨used', idle'⟩ | ⟨same', less'⟩)
    · exact Or.inl ⟨used, idle'⟩
    · exact Or.inl ⟨used, same' ▸ idle⟩
    · exact Or.inl ⟨same ▸ used', idle'⟩
    · exact Or.inr ⟨same.trans same', Int.lt_trans less less'⟩
  incomp_trans _ _ _ left right :=
    ⟨not_lt_trans left.1 right.1, not_lt_trans right.2 left.2⟩

end ConnectionInfo

namespace MyConnPool

/-! ## The most recently used entry -/

/-- `max_element` finds an entry that is not below any entry it has seen. -/
theorem maxElementFrom_max (best : ConnectionInfo Conn) (position next : Nat)
    (rest : List (ConnectionInfo Conn)) :
    ∀ info ∈ best :: rest, ¬(maxElementFrom best position next rest).1.lt info = true := by
  induction rest generalizing best position next with
  | nil =>
      intro info member
      rw [List.mem_singleton] at member
      rw [member]
      exact irrefl_of (fun lhs rhs : ConnectionInfo Conn => lhs.lt rhs = true) best
  | cons first rest ih =>
      intro info member
      rw [maxElementFrom]
      split
      · rename_i below
        have above := ih first next (next + 1)
        rcases List.mem_cons.mp member with rfl | later
        · intro less
          exact above first List.mem_cons_self
            (trans_of (fun lhs rhs : ConnectionInfo Conn => lhs.lt rhs = true) less below)
        · exact above info later
      · rename_i notBelow
        have above := ih best position (next + 1)
        rcases List.mem_cons.mp member with rfl | later
        · exact above info List.mem_cons_self
        · rcases List.mem_cons.mp later with rfl | last
          · exact ConnectionInfo.not_lt_trans (above best List.mem_cons_self) notBelow
          · exact above info (List.mem_cons_of_mem _ last)

/-- The idle entries of the pool. -/
def idle (pool : MyConnPool Conn) : List (ConnectionInfo Conn) :=
  pool.pool.filter fun info => !info.inUse

theorem mem_idle {pool : MyConnPool Conn} {info : ConnectionInfo Conn} :
    info ∈ pool.idle ↔ info ∈ pool.pool ∧ info.inUse = false := by
  simp [idle]

/-- Replacing the entry at a position. -/
theorem exists_split {infos : List (ConnectionInfo Conn)} {position : Nat}
    {info : ConnectionInfo Conn} (there : infos[position]? = some info)
    (other : ConnectionInfo Conn) :
    ∃ before after, infos = before ++ info :: after ∧
      infos.set position other = before ++ other :: after := by
  obtain ⟨inside, rfl⟩ := List.getElem?_eq_some_iff.mp there
  refine ⟨infos.take position, infos.drop (position + 1), ?_, ?_⟩
  · rw [← List.drop_eq_getElem_cons, List.take_append_drop]
  · rw [List.set_eq_take_append_cons_drop, if_pos inside]

/-- Where an entry is idle, `find_mru` marks an idle entry that no idle entry is younger
than. -/
theorem findMru_of_idle {pool : MyConnPool Conn} (waiting : pool.idle ≠ []) :
    ∃ before mru after, pool.pool = before ++ mru :: after ∧ mru.inUse = false ∧
      (∀ info ∈ pool.idle, info.lastUsed ≤ mru.lastUsed) ∧
      pool.findMru = some
        (mru.conn, { pool with pool := before ++ { mru with inUse := true } :: after }) := by
  obtain ⟨candidate, isIdle⟩ := List.exists_mem_of_ne_nil _ waiting
  obtain ⟨listed, candidateIdle⟩ := mem_idle.mp isIdle
  cases entries : pool.pool with
  | nil =>
      rw [entries] at listed
      exact absurd listed List.not_mem_nil
  | cons first rest =>
      have greatest : maxElement pool.pool = some (maxElementFrom first 0 1 rest) := by
        rw [entries, maxElement]
      have above := maxElementFrom_max first 0 1 rest
      rw [← entries] at above
      rcases found : maxElementFrom first 0 1 rest with ⟨mru, position⟩
      rw [found] at greatest above
      -- A lent entry would be below the idle one.
      have mruIdle : mru.inUse = false := by
        cases used : mru.inUse with
        | false => rfl
        | true =>
            have below : mru.lt candidate = true :=
              (ConnectionInfo.lt_iff _ _).mpr (Or.inl ⟨used, candidateIdle⟩)
            exact absurd below (above candidate listed)
      obtain ⟨before, after, split, marked⟩ :=
        exists_split (maxElement_getElem? greatest) { mru with inUse := true }
      rw [← entries]
      refine ⟨before, mru, after, split, mruIdle, fun info member => ?_, ?_⟩
      · obtain ⟨inPool, infoIdle⟩ := mem_idle.mp member
        have notBelow := above info inPool
        rw [ConnectionInfo.lt_iff, not_or, not_and, not_and] at notBelow
        exact Int.not_lt.mp (notBelow.2 (mruIdle.trans infoIdle.symm))
      · simp [findMru, greatest, mruIdle, marked]

theorem findMru_of_no_idle {pool : MyConnPool Conn} (noIdle : pool.idle = []) :
    pool.findMru = none := by
  cases found : pool.findMru with
  | none => rfl
  | some result =>
      obtain ⟨mru, position, there, isIdle, _⟩ := findMru_eq_some found
      have member : mru ∈ pool.idle := mem_idle.mpr ⟨List.mem_of_getElem? there, isIdle⟩
      rw [noIdle] at member
      exact absurd member List.not_mem_nil

/-! ## `grab` -/

/-- What `remove_old_connections` destroys. -/
theorem removeIf_snd (matching : ConnectionInfo Conn → Bool) (infos : List (ConnectionInfo Conn)) :
    (removeIf matching infos).2 = conns (infos.filter matching) := by
  induction infos with
  | nil => rfl
  | cons info rest ih =>
      by_cases found : matching info = true
      · simp [removeIf, found, ih, conns]
      · simp [removeIf, found, ih]

theorem tooOld_iff (now : Int) (tmax : Nat) (info : ConnectionInfo Conn) :
    info.tooOld now tmax = true ↔ info.inUse = false ∧ info.lastUsed ≤ now - tmax := by
  simp [ConnectionInfo.tooOld]

/-- The pool after the entry between `before` and `after` has been marked. -/
def withMarked (pool : MyConnPool Conn) (before : List (ConnectionInfo Conn))
    (mru : ConnectionInfo Conn) (after : List (ConnectionInfo Conn)) : MyConnPool Conn :=
  { pool with pool := before ++ { mru with inUse := true } :: after }

/-- The pool after a connection has been created. -/
def withCreated (pool : MyConnPool Conn) (conn : Conn) (stamp : Int) : MyConnPool Conn :=
  { pool with
    pool := pool.pool ++ [⟨conn, stamp, true⟩]
    created := pool.created ++ [conn] }

theorem grab_of_idle {pool : MyConnPool Conn} {now : Int}
    (waiting : (pool.removeOldConnections now).idle ≠ []) (creation : Option (Conn × Int)) :
    ∃ before mru after, (pool.removeOldConnections now).pool = before ++ mru :: after ∧
      mru.inUse = false ∧
      (∀ info ∈ (pool.removeOldConnections now).idle, info.lastUsed ≤ mru.lastUsed) ∧
      pool.grab now creation = (some mru.conn,
        (pool.removeOldConnections now).withMarked before mru after) := by
  obtain ⟨before, mru, after, split, isIdle, youngest, found⟩ := findMru_of_idle waiting
  exact ⟨before, mru, after, split, isIdle, youngest, by simp only [grab, found, withMarked]⟩

theorem grab_of_no_idle {pool : MyConnPool Conn} {now : Int}
    (noIdle : (pool.removeOldConnections now).idle = []) (conn : Conn) (stamp : Int) :
    pool.grab now (some (conn, stamp)) =
      (some conn, (pool.removeOldConnections now).withCreated conn stamp) := by
  simp only [grab, findMru_of_no_idle noIdle, withCreated, ConnectionInfo.new]

/-- `grab` destroys the idle entries that are too old and no others; then it marks an idle
entry that was used last, without creating a connection, or appends a new one where no idle
entry is left. -/
theorem grab_most_recently_used (pool : MyConnPool Conn) (now : Int) :
    (∀ info : ConnectionInfo Conn, info.tooOld now maxIdleTime = true ↔
        info.inUse = false ∧ info.lastUsed ≤ now - maxIdleTime) ∧
      (pool.removeOldConnections now).pool =
        pool.pool.filter (fun info => !info.tooOld now maxIdleTime) ∧
      (pool.removeOldConnections now).destroyed =
        pool.destroyed ++ conns (pool.pool.filter (ConnectionInfo.tooOld now maxIdleTime)) ∧
      (pool.removeOldConnections now).created = pool.created ∧
      ((pool.removeOldConnections now).idle ≠ [] → ∀ creation : Option (Conn × Int),
        ∃ before mru after, (pool.removeOldConnections now).pool = before ++ mru :: after ∧
          mru.inUse = false ∧
          (∀ info ∈ (pool.removeOldConnections now).idle, info.lastUsed ≤ mru.lastUsed) ∧
          pool.grab now creation = (some mru.conn,
            (pool.removeOldConnections now).withMarked before mru after)) ∧
      ((pool.removeOldConnections now).idle = [] → ∀ conn stamp,
        pool.grab now (some (conn, stamp)) =
          (some conn, (pool.removeOldConnections now).withCreated conn stamp)) ∧
      IsStrictWeakOrder (ConnectionInfo Conn) (fun lhs rhs => lhs.lt rhs = true) ∧
      ∀ lent idle : ConnectionInfo Conn, lent.inUse = true → idle.inUse = false →
        lent.lt idle = true := by
  refine ⟨tooOld_iff now maxIdleTime, removeOldConnections_pool pool now, ?_, rfl,
    grab_of_idle, grab_of_no_idle, inferInstance, fun lent idle used isIdle => ?_⟩
  · exact congrArg (pool.destroyed ++ ·) (removeIf_snd _ _)
  · exact (ConnectionInfo.lt_iff _ _).mpr (Or.inl ⟨used, isIdle⟩)

end MyConnPool

end Cncpp.ConnPool

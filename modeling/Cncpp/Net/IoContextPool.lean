import Cncpp.Cycle.Rotation
import Cncpp.Loop.Bounded
import Cncpp.Machine.Word
import Cncpp.Transition.Answer

/-!
# The pool of io contexts

`IoConnectPool::get_io_context` takes the contexts in turn: it subscripts the vector by
`next_io_context_` and sets this index back to 0 when it equals the size.  The member has no
initialiser, and neither the constructor nor `init` sets it, so that its first value is
anything.

What the members keep running, `work_`, is left out: nothing is decided by it.
-/

namespace Cncpp.Net

open Cncpp.Cycle
open Cncpp.Loop
open Cncpp.Machine
open Cncpp.Transition

/-- An object of `class IoConnectPool`. -/
structure IoConnectPool where
  /-- A context is known by the number of contexts made before it. -/
  ioContexts : List Nat
  nextIoContext : Nat
  poolSize : Nat
  deriving DecidableEq

namespace IoConnectPool

/-- `IoConnectPool()`, with the value that `next_io_context_` happens to have. -/
def new (nextIoContext : Nat) : IoConnectPool :=
  ⟨[], uint16 nextIoContext, 0⟩

/-- `init`, with the text that it throws.  `none` would mean that its loop does not end. -/
def init (pool : IoConnectPool) (poolSize : Nat) : Option (Except String IoConnectPool) :=
  let sized := { pool with poolSize := uint16 poolSize }
  if sized.poolSize = 0 then some (.error "io_context_pool size is 0")
  else
    (run (countedPass (fun i => i + 1) sized.poolSize extend) (sized.poolSize + 1)
      (0, sized.ioContexts)).map fun ioContexts => .ok { sized with ioContexts := ioContexts }

/-- `get_io_context`: the index of the subscript, and the context there.  A subscript outside
of the vector selects none. -/
def getIoContext : Method IoConnectPool Unit (Selection Nat)
  | pool, () =>
      let incremented := uint16 (pool.nextIoContext + 1)
      (select pool.ioContexts pool.nextIoContext,
        { pool with
          nextIoContext := if incremented = pool.ioContexts.length then 0 else incremented })

/-- An initialised pool of `n` contexts. -/
def initialised (n nextIoContext : Nat) : IoConnectPool :=
  ⟨List.range n, nextIoContext, n⟩

/-- `init` ends, with one context for every number below the size. -/
theorem init_new {n : Nat} (positive : 0 < n) (fits : n < 2 ^ 16) (nextIoContext : Nat) :
    (new nextIoContext).init n = some (.ok (initialised n (uint16 nextIoContext))) := by
  have size : uint16 n = n := uint16_of_lt fits
  have positiveSize : ¬n = 0 := by omega
  have contexts : (new nextIoContext).ioContexts = [] := rfl
  simp only [init, size, if_neg positiveSize, contexts]
  rw [run_extend fun _ _ => rfl]
  rfl

/-- Below the size the index goes round. -/
theorem getIoContext_initialised {n : Nat} (positive : 0 < n) (fits : n < 2 ^ 16) (i : Nat) :
    (initialised n (i % n)).getIoContext () =
      (select (List.range n) (i % n % n), initialised n ((i + 1) % n)) := by
  have below : i % n < n := Nat.mod_lt i positive
  have incremented : uint16 (i % n + 1) = i % n + 1 := uint16_of_lt (by omega)
  have next : (if i % n + 1 = n then 0 else i % n + 1) = (i + 1) % n := by
    rw [← Nat.mod_add_mod]
    by_cases last : i % n + 1 = n
    · rw [if_pos last, last, Nat.mod_self]
    · have small : (i % n + 1) % n = i % n + 1 := Nat.mod_eq_of_lt (by omega)
      rw [if_neg last, small]
  rw [getIoContext, Nat.mod_mod]
  simp only [initialised, List.length_range, incremented, next]

/-- The selections of any number of calls, from an index below the size on. -/
theorem answers_getIoContext {n next : Nat} (fits : n < 2 ^ 16) (below : next < n)
    (count : Nat) :
    answers getIoContext (initialised n next) (List.replicate count ()) =
      ((List.range' next count).map fun i => select (List.range n) (i % n % n),
        initialised n ((next + count) % n)) := by
  have positive : 0 < n := by omega
  have first : initialised n (next % n) = initialised n next := by rw [Nat.mod_eq_of_lt below]
  rw [← first]
  exact answers_replicate (getIoContext_initialised positive fits) next count

/-- The contexts are taken in turn, with all subscripts inside of the vector, exactly when
the first index happens to be below the size, or nothing is taken. -/
theorem getIoContext_roundRobin_iff {n : Nat} (positive : 0 < n) (fits : n < 2 ^ 16)
    (nextIoContext count : Nat) :
    ∃ pool, (new nextIoContext).init n = some (.ok pool) ∧ pool.ioContexts.length = n ∧
      (RoundRobin n pool.ioContexts.length
          (answers getIoContext pool (List.replicate count ())).1 ↔
        uint16 nextIoContext < n ∨ count = 0) := by
  have table : (initialised n (uint16 nextIoContext)).ioContexts.length = n :=
    List.length_range
  refine ⟨_, init_new positive fits nextIoContext, table, ?_⟩
  rw [table]
  constructor
  · intro goesRound
    cases count with
    | zero => exact Or.inr rfl
    | succ count =>
        have first := goesRound.inside (select (List.range n) (uint16 nextIoContext))
          List.mem_cons_self
        exact Or.inl first
  · rintro (below | rfl)
    · have goesRound := (roundRobin_residues_iff (List.nodup_range (n := n))
        (by rwa [List.length_range]) (by rwa [List.length_range]) count).mpr
        (Or.inl (Nat.dvd_refl _))
      rw [List.length_range] at goesRound
      rw [answers_getIoContext fits below]
      exact goesRound
    · exact ⟨nofun, rotates_of_length_lt positive⟩

/-- An index that happens to be 2 goes round three contexts. -/
theorem threeContexts_roundRobin :
    ∃ pool, (new 2).init 3 = some (.ok pool) ∧
      RoundRobin 3 pool.ioContexts.length
        (answers getIoContext pool (List.replicate 7 ())).1 := by
  obtain ⟨pool, initialised, size, exactly⟩ :=
    getIoContext_roundRobin_iff (by decide : 0 < 3) (by decide) 2 7
  exact ⟨pool, initialised, exactly.mpr (Or.inl (by decide))⟩

/-- An index that happens to be 5 is outside of three contexts. -/
theorem garbage_outside :
    ∃ pool, (new 5).init 3 = some (.ok pool) ∧
      (answers getIoContext pool (List.replicate 1 ())).1 = [⟨5, none⟩] ∧
      ¬RoundRobin 3 pool.ioContexts.length
        (answers getIoContext pool (List.replicate 1 ())).1 := by
  refine ⟨_, rfl, by decide, fun goesRound => ?_⟩
  have first := goesRound.inside ⟨5, none⟩ (by decide)
  revert first
  decide

end IoConnectPool

end Cncpp.Net

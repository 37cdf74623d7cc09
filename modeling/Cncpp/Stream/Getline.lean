import Cncpp.Loop.Bounded
import Mathlib.Data.List.Basic

/-!
# Reading up to a delimiter

`getline` takes a stream up to the next delimiter and discards the delimiter; it fails when
the stream is at its end.  A loop over `getline` sees the `pieces` of the stream.  A
delimiter ends a piece and does not start one: behind the last delimiter there is a piece only
if there are characters.
-/

namespace Cncpp.Stream

open Loop

universe u v w

variable {α : Type u} [DecidableEq α]

/-- The characters before the next delimiter, and the stream behind the delimiter. -/
def extract (delim : α) : List α → List α × List α
  | [] => ([], [])
  | c :: rest =>
      if c = delim then ([], rest)
      else (c :: (extract delim rest).1, (extract delim rest).2)

/-- `getline`; none where nothing can be extracted. -/
def getline (delim : α) : List α → Option (List α × List α)
  | [] => none
  | c :: rest => some (extract delim (c :: rest))

/-- The pieces of a stream. -/
def pieces (delim : α) : List α → List (List α)
  | [] => []
  | c :: rest =>
      if c = delim then [] :: pieces delim rest
      else (c :: (pieces delim rest).headD []) :: (pieces delim rest).tail

section Loop

variable {σ : Type v} {ρ : Type w}

/-- One pass of a loop over the pieces of a stream. -/
def linePass (delim : α) (body : σ → List α → Pass σ ρ) (finish : σ → ρ) :
    List α × σ → Pass (List α × σ) ρ
  | (text, state) =>
      match getline delim text with
      | none => .leave (finish state)
      | some (line, rest) =>
          match body state line with
          | .again next => .again (rest, next)
          | .leave result => .leave result

/-- The loop body on one piece after the other. -/
def overPieces (body : σ → List α → Pass σ ρ) (finish : σ → ρ) : σ → List (List α) → ρ
  | state, [] => finish state
  | state, piece :: rest =>
      match body state piece with
      | .again next => overPieces body finish next rest
      | .leave result => result

end Loop

variable {delim : α}

theorem pieces_delim (rest : List α) : pieces delim (delim :: rest) = [] :: pieces delim rest := by
  rw [pieces, if_pos rfl]

/-- A delimiter ends a piece. -/
theorem pieces_terminated {field : List α} (clean : delim ∉ field) (rest : List α) :
    pieces delim (field ++ delim :: rest) = field :: pieces delim rest := by
  induction field with
  | nil => exact pieces_delim rest
  | cons c field ih =>
      rw [List.mem_cons, not_or] at clean
      rw [List.cons_append, pieces, if_neg (Ne.symm clean.1), ih clean.2]
      rfl

/-- Characters behind the last delimiter are a piece. -/
theorem pieces_clean {field : List α} (clean : delim ∉ field) (nonempty : field ≠ []) :
    pieces delim field = [field] := by
  induction field with
  | nil => contradiction
  | cons c field ih =>
      rw [List.mem_cons, not_or] at clean
      rw [pieces, if_neg (Ne.symm clean.1)]
      by_cases last : field = []
      · subst last
        rfl
      · rw [ih clean.2 last]
        rfl

/-- Fields that are ended by delimiters, and what stands behind them. -/
theorem pieces_flatMap {fields : List (List α)} (clean : ∀ field ∈ fields, delim ∉ field)
    (rest : List α) :
    pieces delim (fields.flatMap (· ++ [delim]) ++ rest) = fields ++ pieces delim rest := by
  induction fields with
  | nil => rfl
  | cons field fields ih =>
      have later := ih fun other member => clean other (List.mem_cons_of_mem _ member)
      rw [List.flatMap_cons, List.append_assoc, List.append_assoc, List.singleton_append,
        pieces_terminated (clean field List.mem_cons_self), later, List.cons_append]

/-- What is extracted is the first piece. -/
theorem pieces_extract (c : α) (rest : List α) :
    pieces delim (c :: rest) =
      (extract delim (c :: rest)).1 :: pieces delim (extract delim (c :: rest)).2 := by
  induction rest generalizing c with
  | nil =>
      by_cases ends : c = delim <;> simp [pieces, extract, ends]
  | cons next rest ih =>
      rw [pieces, extract, ih next]
      by_cases ends : c = delim
      · rw [if_pos ends, if_pos ends, ih next]
      · rw [if_neg ends, if_neg ends]
        rfl

theorem length_extract_le (text : List α) : (extract delim text).2.length ≤ text.length := by
  induction text with
  | nil => exact Nat.le_refl 0
  | cons c rest ih =>
      rw [extract, List.length_cons]
      split
      · exact Nat.le_succ _
      · exact Nat.le_succ_of_le ih

/-- Something is extracted from a stream that is not at its end. -/
theorem length_extract_lt (c : α) (rest : List α) :
    (extract delim (c :: rest)).2.length < (c :: rest).length := by
  rw [extract, List.length_cons]
  split
  · exact Nat.lt_succ_self _
  · exact Nat.lt_succ_of_le (length_extract_le rest)

/-- The loop runs its body on the pieces, one after the other, until the body leaves it. -/
theorem run_linePass {σ : Type v} {ρ : Type w} {fuel : Nat} (body : σ → List α → Pass σ ρ)
    (finish : σ → ρ) {text : List α} (state : σ) (enough : text.length < fuel) :
    run (linePass delim body finish) fuel (text, state) =
      some (overPieces body finish state (pieces delim text)) := by
  induction fuel generalizing text state with
  | zero => omega
  | succ fuel ih =>
      cases text with
      | nil => rfl
      | cons c rest =>
          have shorter : (extract delim (c :: rest)).2.length < (c :: rest).length :=
            length_extract_lt c rest
          rw [run, linePass, getline, pieces_extract, overPieces]
          dsimp only
          cases body state (extract delim (c :: rest)).1 with
          | again next => exact ih next (by omega)
          | leave result => rfl

omit [DecidableEq α] in
/-- A body that collects the pieces. -/
theorem overPieces_collect (found parts : List (List α)) :
    overPieces (fun strings part => .again (strings ++ [part])) id found parts =
      found ++ parts := by
  induction parts generalizing found with
  | nil => exact (List.append_nil found).symm
  | cons part parts ih =>
      rw [overPieces]
      exact (ih (found ++ [part])).trans (List.append_cons ..).symm

end Cncpp.Stream

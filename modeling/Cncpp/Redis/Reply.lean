import Cncpp.Redis.Core
import Cncpp.Stream.Getline
import Cncpp.Stream.Outline
import Mathlib

/-!
# Replies of the server

`RedisReply` copies a reply of hiredis, with all its elements, and `dumpResult` prints it.
What the members tell of a reply is what the server has sent, and so is what is printed, as
long as the texts have no line breaks.  Replies of other types than the six of the class keep
nothing but their type and print nothing.
-/

namespace Cncpp.Redis

open Cncpp.Machine
open Cncpp.Stream

/-- A pointer to a `redisReply` of hiredis, which may be null. -/
inductive Raw where
  | null
  | mk (type : Int) (integer : Int) (str : Text) (element : List Raw)

/-- The members of `class RedisReply`. -/
inductive Copied where
  | mk (type_ : Int) (integer_ : Int) (str_ : Text) (row_ : List Copied)

/-- `REDIS_REPLY_STRING`. -/
def replyString : Int := 1

/-- `REDIS_REPLY_ARRAY`. -/
def replyArray : Int := 2

/-- `REDIS_REPLY_INTEGER`. -/
def replyInteger : Int := 3

/-- `REDIS_REPLY_NIL`. -/
def replyNil : Int := 4

/-- `REDIS_REPLY_STATUS`. -/
def replyStatus : Int := 5

/-- `REDIS_REPLY_ERROR`. -/
def replyError : Int := 6

/-- The conversion to `int16_t`. -/
def int16 (value : Int) : Int :=
  value.bmod (2 ^ 16)

namespace Copied

/-- An object of the default constructor, or one that has been reset. -/
def empty : Copied :=
  .mk 0 0 [] []

mutual

/-- `parseFrom`, on an object: what it returns, and the object. -/
def parseFrom (object : Copied) : Raw → Bool × Copied
  | .null => (false, object)
  | .mk type integer str element =>
      let type_ := int16 type
      if replyInteger = type_ then (true, .mk type_ integer [] [])
      else if replyError = type_ ∨ replyString = type_ ∨ replyStatus = type_ then
        (true, .mk type_ 0 str [])
      else if replyArray = type_ then (true, .mk type_ 0 [] (emplaceAll element))
      else (false, .mk type_ 0 [] [])

/-- The objects that are constructed from the elements. -/
def emplaceAll : List Raw → List Copied
  | [] => []
  | reply :: rest => (parseFrom empty reply).2 :: emplaceAll rest

end

/-- The constructor from a reply. -/
def ofReply (reply : Raw) : Copied :=
  (parseFrom empty reply).2

section Members

variable (value : Copied)

def type_ : Copied → Int
  | .mk type _ _ _ => type

/-- `isNull`. -/
def isNull : Bool := value.type_ == replyNil

/-- `isString`. -/
def isString : Bool := value.type_ == replyString

/-- `isArray`. -/
def isArray : Bool := value.type_ == replyArray

/-- `isInteger`. -/
def isInteger : Bool := value.type_ == replyInteger

/-- `isStatus`. -/
def isStatus : Bool := value.type_ == replyStatus

/-- `isError`. -/
def isError : Bool := value.type_ == replyError

/-- `toInt`. -/
def toInt : Int :=
  match value with
  | .mk _ integer _ _ => if !value.isInteger then -1 else integer

/-- `toString`. -/
def toString : Text :=
  match value with
  | .mk _ _ str _ => if !value.isString && !value.isError && !value.isStatus then [] else str

/-- `toError`. -/
def toError : Text :=
  match value with
  | .mk _ _ str _ => if !value.isError then [] else str

/-- `toArray`. -/
def toArray : List Copied :=
  match value with
  | .mk _ _ _ row => if !value.isArray then [] else row

end Members

mutual

/-- `printRedisValue`.  The items of an array are those of `toArray`. -/
def printRedisValue (indent : Nat) : Copied → Text
  | .mk type integer str row =>
      let value := Copied.mk type integer str row
      let front := List.replicate indent ' '
      if value.isNull then front ++ "null\n".toList
      else if value.isError then front ++ "Error: ".toList ++ value.toError ++ ['\n']
      else if value.isString then
        front ++ "String: \"".toList ++ value.toString ++ "\"\n".toList
      else if value.isInteger then
        front ++ "Integer: ".toList ++ value.toInt.repr.toList ++ ['\n']
      else if value.isArray then
        front ++ "Array [\n".toList ++ printItems (indent + 2) row ++ front ++ "]\n".toList
      else if value.isStatus then
        front ++ "Status: \"".toList ++ value.toString ++ "\"\n".toList
      else []

/-- The loop over the items. -/
def printItems (indent : Nat) : List Copied → Text
  | [] => []
  | item :: rest => printRedisValue indent item ++ printItems indent rest

end

/-- The loop over the items goes over `toArray`. -/
theorem printRedisValue_array {value : Copied} (array : value.isArray = true) (indent : Nat) :
    printRedisValue indent value =
      List.replicate indent ' ' ++ "Array [\n".toList ++ printItems (indent + 2) value.toArray ++
        List.replicate indent ' ' ++ "]\n".toList := by
  obtain ⟨type, integer, str, row⟩ := value
  obtain rfl : type = replyArray := eq_of_beq array
  rfl

/-- `dumpResult`: what is printed. -/
def dumpResult (value : Copied) : Text :=
  value.printRedisValue 0

mutual

/-- What a client can tell of a reply by the members of the class; none where none of the type
tests holds. -/
def told : Copied → Option RedisReply
  | .mk type integer str row =>
      let value := Copied.mk type integer str row
      if value.isNull then some .nil
      else if value.isError then some (.error (String.ofList value.toError))
      else if value.isString then some (.string (String.ofList value.toString))
      else if value.isInteger then some (.integer value.toInt)
      else if value.isArray then (toldAll row).map .array
      else if value.isStatus then some (.status (String.ofList value.toString))
      else none

/-- What a client can tell of the items. -/
def toldAll : List Copied → Option (List RedisReply)
  | [] => some []
  | item :: rest => (told item).bind fun reply => (toldAll rest).map (reply :: ·)

end

/-- The items of an array are told from `toArray`. -/
theorem told_array {value : Copied} (array : value.isArray = true) :
    told value = (toldAll value.toArray).map .array := by
  obtain ⟨type, integer, str, row⟩ := value
  obtain rfl : type = replyArray := eq_of_beq array
  rfl

/-- The items of a copied array are the copied elements. -/
theorem ofReply_array {type : Int} (array : int16 type = replyArray) (integer : Int)
    (str : Text) (element : List Raw) :
    (ofReply (.mk type integer str element)).isArray = true ∧
      (ofReply (.mk type integer str element)).toArray = emplaceAll element := by
  rw [ofReply, parseFrom]
  simp only [array]
  exact ⟨rfl, rfl⟩

end Copied

/-! ## What the server sends -/

mutual

/-- The reply that hiredis makes of what the server has sent. -/
def RedisReply.raw : RedisReply → Raw
  | .nil => .mk replyNil 0 [] []
  | .integer value => .mk replyInteger value [] []
  | .string text => .mk replyString 0 text.toList []
  | .status text => .mk replyStatus 0 text.toList []
  | .error text => .mk replyError 0 text.toList []
  | .array row => .mk replyArray 0 [] (RedisReply.rawAll row)

def RedisReply.rawAll : List RedisReply → List Raw
  | [] => []
  | reply :: rest => reply.raw :: RedisReply.rawAll rest

end

namespace RedisReply

open Copied

/-- The object that is made of what the server has sent. -/
abbrev copied (reply : RedisReply) : Copied :=
  ofReply reply.raw

theorem toArray_copied (row : List RedisReply) :
    (copied (.array row)).toArray = emplaceAll (rawAll row) :=
  (ofReply_array rfl 0 [] (rawAll row)).2

mutual

/-- A client can tell from the members what the server has sent. -/
theorem told_copied : ∀ reply : RedisReply, told (copied reply) = some reply
  | .nil => rfl
  | .integer _ => rfl
  | .string _ => congrArg (some ∘ RedisReply.string) String.ofList_toList
  | .status _ => congrArg (some ∘ RedisReply.status) String.ofList_toList
  | .error _ => congrArg (some ∘ RedisReply.error) String.ofList_toList
  | .array row => by
      rw [told_array rfl, toArray_copied, toldAll_copied row]
      rfl

theorem toldAll_copied : ∀ row : List RedisReply, toldAll (emplaceAll (rawAll row)) = some row
  | [] => rfl
  | reply :: rest => by
      have first := told_copied reply
      rw [rawAll, emplaceAll, toldAll, toldAll_copied rest]
      change (told (copied reply)).bind _ = _
      rw [first]
      rfl

end

/-! ## What is printed -/

/-- The layout of `printRedisValue`. -/
def layout : Outline.Layout Char :=
  { blank := ' ', opening := "Array [".toList, closing := "]".toList, step := 2 }

mutual

/-- The outline of a reply. -/
def outline : RedisReply → Outline Char
  | .nil => .leaf "null".toList
  | .integer value => .leaf ("Integer: ".toList ++ value.repr.toList)
  | .string text => .leaf ("String: \"".toList ++ text.toList ++ ['"'])
  | .status text => .leaf ("Status: \"".toList ++ text.toList ++ ['"'])
  | .error text => .leaf ("Error: ".toList ++ text.toList)
  | .array row => .block (outlineAll row)

def outlineAll : List RedisReply → List (Outline Char)
  | [] => []
  | reply :: rest => reply.outline :: outlineAll rest

end

/-- Lines with their ends. -/
abbrev ended (lines : List Text) : Text :=
  lines.flatMap (· ++ ['\n'])

theorem ended_leaf (indent : Nat) (content : Text) :
    ended (Outline.lines layout indent (.leaf content)) =
      List.replicate indent ' ' ++ content ++ ['\n'] :=
  List.append_nil _

theorem ended_block (indent : Nat) (children : List (Outline Char)) :
    ended (Outline.lines layout indent (.block children)) =
      List.replicate indent ' ' ++ "Array [\n".toList ++
        ended (Outline.linesAll layout (indent + 2) children) ++
          List.replicate indent ' ' ++ "]\n".toList := by
  simp [ended, Outline.lines, Outline.Layout.indented, layout]

mutual

/-- The lines of the outline are printed. -/
theorem printRedisValue_copied : ∀ (indent : Nat) (reply : RedisReply),
    printRedisValue indent (copied reply) = ended (Outline.lines layout indent reply.outline)
  | indent, .nil => by
      rw [outline, ended_leaf, List.append_assoc]
      rfl
  | indent, .integer value => by
      rw [outline, ended_leaf, ← List.append_assoc]
      rfl
  | indent, .string text => by
      rw [outline, ended_leaf, ← List.append_assoc, ← List.append_assoc, List.append_assoc]
      rfl
  | indent, .status text => by
      rw [outline, ended_leaf, ← List.append_assoc, ← List.append_assoc, List.append_assoc]
      rfl
  | indent, .error text => by
      rw [outline, ended_leaf, ← List.append_assoc]
      rfl
  | indent, .array row => by
      rw [printRedisValue_array rfl, toArray_copied, outline, ended_block,
        ← printItems_copied (indent + 2) row]

theorem printItems_copied : ∀ (indent : Nat) (row : List RedisReply),
    printItems indent (emplaceAll (rawAll row)) =
      ended (Outline.linesAll layout indent (outlineAll row))
  | _, [] => rfl
  | indent, reply :: rest => by
      have first := printRedisValue_copied indent reply
      have later := printItems_copied indent rest
      rw [rawAll, emplaceAll, printItems, later, outlineAll, Outline.linesAll]
      unfold ended
      rw [List.flatMap_append]
      exact congrArg (· ++ _) first

end

mutual

/-- Different replies have different outlines. -/
theorem outline_injective : ∀ {first second : RedisReply},
    first.outline = second.outline → first = second
  | .nil, second, same => by
      cases second <;> simp [outline] at same ⊢
  | .integer _, second, same => by
      cases second <;> simp [outline] at same ⊢
      exact Int.repr_injective (String.toList_inj.mp same)
  | .string _, second, same => by
      cases second <;> simp [outline] at same ⊢
      exact String.toList_inj.mp same
  | .status _, second, same => by
      cases second <;> simp [outline] at same ⊢
      exact String.toList_inj.mp same
  | .error _, second, same => by
      cases second <;> simp [outline] at same ⊢
      exact String.toList_inj.mp same
  | .array row, second, same => by
      cases second with
      | array other =>
          exact congrArg RedisReply.array (outlineAll_injective (Outline.block.inj same))
      | nil => contradiction
      | integer | string | status | error => contradiction

theorem outlineAll_injective : ∀ {first second : List RedisReply},
    outlineAll first = outlineAll second → first = second
  | [], [], _ => rfl
  | _ :: _, _ :: _, same => by
      obtain ⟨head, tail⟩ := List.cons.inj same
      rw [outline_injective head, outlineAll_injective tail]

end

/-! ## Reading what is printed -/

mutual

/-- No text of the reply has a line break. -/
def OneLine : RedisReply → Prop
  | .nil => True
  | .integer _ => True
  | .string text => '\n' ∉ text.toList
  | .status text => '\n' ∉ text.toList
  | .error text => '\n' ∉ text.toList
  | .array row => OneLineAll row

def OneLineAll : List RedisReply → Prop
  | [] => True
  | reply :: rest => OneLine reply ∧ OneLineAll rest

end

theorem readable_of_cons {c : Char} (content : Text) (blank : c ≠ ' ') (opening : c ≠ 'A')
    (closing : c ≠ ']') : Outline.Readable layout (c :: content) where
  unindented same := blank (Option.some.inj same)
  not_opening same := opening (List.cons.inj same).1
  not_closing same := closing (List.cons.inj same).1

mutual

/-- No leaf looks like the line of a block. -/
theorem outline_readable : ∀ reply : RedisReply,
    reply.outline.Leaves (Outline.Readable layout)
  | .nil => readable_of_cons _ (by decide) (by decide) (by decide)
  | .integer _ => readable_of_cons _ (by decide) (by decide) (by decide)
  | .string _ => readable_of_cons _ (by decide) (by decide) (by decide)
  | .status _ => readable_of_cons _ (by decide) (by decide) (by decide)
  | .error _ => readable_of_cons _ (by decide) (by decide) (by decide)
  | .array row => outlineAll_readable row

theorem outlineAll_readable : ∀ row : List RedisReply,
    Outline.LeavesAll (Outline.Readable layout) (outlineAll row)
  | [] => trivial
  | reply :: rest => ⟨outline_readable reply, outlineAll_readable rest⟩

end

theorem repr_oneLine (value : Int) : '\n' ∉ value.repr.toList := by
  have digits (n : Nat) : '\n' ∉ Nat.toDigits 10 n := fun inside =>
    absurd (Nat.isDigit_of_mem_toDigits (by decide) (by decide) inside) (by decide)
  cases value with
  | ofNat value => simp [Int.repr, digits]
  | negSucc value => simp [Int.repr, digits]

mutual

/-- A reply without line breaks has leaves without line breaks. -/
theorem outline_oneLine : ∀ {reply : RedisReply}, reply.OneLine →
    reply.outline.Leaves ('\n' ∉ ·)
  | .nil, _ => (by decide : '\n' ∉ "null".toList)
  | .integer value, _ => by
      have digits := repr_oneLine value
      simp [outline, Outline.Leaves, digits]
  | .string text, oneLine => by
      rw [OneLine] at oneLine
      simp [outline, Outline.Leaves, oneLine]
  | .status text, oneLine => by
      rw [OneLine] at oneLine
      simp [outline, Outline.Leaves, oneLine]
  | .error text, oneLine => by
      rw [OneLine] at oneLine
      simp [outline, Outline.Leaves, oneLine]
  | .array _, oneLine => outlineAll_oneLine oneLine

theorem outlineAll_oneLine : ∀ {row : List RedisReply}, OneLineAll row →
    Outline.LeavesAll ('\n' ∉ ·) (outlineAll row)
  | [], _ => trivial
  | _ :: _, oneLine => ⟨outline_oneLine oneLine.1, outlineAll_oneLine oneLine.2⟩

end

theorem layout_distinct : layout.Distinct where
  opening := by decide
  closing := by decide
  apart := by decide

/-- The pieces between the line breaks are the lines of the outline. -/
theorem pieces_dumpResult {reply : RedisReply} (oneLine : reply.OneLine) :
    pieces '\n' (dumpResult (copied reply)) = Outline.lines layout 0 reply.outline := by
  have clean : ∀ line ∈ Outline.lines layout 0 reply.outline, '\n' ∉ line := by
    refine Outline.forall_lines layout ?_ (by decide) (by decide) (outline_oneLine oneLine)
    intro depth content inside
    simpa [Outline.Layout.indented, layout] using inside
  have printed := pieces_flatMap clean []
  rw [List.append_nil, pieces, List.append_nil] at printed
  rw [dumpResult, printRedisValue_copied]
  exact printed

/-- What is printed tells replies without line breaks apart. -/
theorem dumpResult_injective {first second : RedisReply} (firstLine : first.OneLine)
    (secondLine : second.OneLine)
    (same : dumpResult (copied first) = dumpResult (copied second)) : first = second := by
  apply outline_injective
  apply Outline.lines_injective layout_distinct (outline_readable first) (outline_readable second)
  rw [← pieces_dumpResult firstLine, same, pieces_dumpResult secondLine]

end RedisReply

/-! ## Other types -/

open Copied

/-- The six types that the class tells apart. -/
def Raw.known : Raw → Bool
  | .null => false
  | .mk type _ _ _ =>
      [replyString, replyArray, replyInteger, replyNil, replyStatus, replyError].contains
        (int16 type)

/-- A reply of another type prints nothing. -/
theorem printRedisValue_unknown {reply : Raw} (unknown : reply.known = false) (indent : Nat) :
    printRedisValue indent (ofReply reply) = [] := by
  cases reply with
  | null => rfl
  | mk type integer str element =>
      simp only [Raw.known, List.contains_cons, List.contains_nil, Bool.or_false,
        Bool.or_eq_false_iff] at unknown
      obtain ⟨string, array, integers, nil, status, error⟩ := unknown
      have made : ofReply (.mk type integer str element) = .mk (int16 type) 0 [] [] := by
        simp only [ofReply, parseFrom]
        rw [if_neg (Ne.symm (ne_of_beq_false integers)), if_neg,
          if_neg (Ne.symm (ne_of_beq_false array))]
        rintro (same | same | same)
        · exact ne_of_beq_false error same.symm
        · exact ne_of_beq_false string same.symm
        · exact ne_of_beq_false status same.symm
      rw [made]
      simp only [printRedisValue, isNull, isError, isString, isInteger, isArray, isStatus, type_,
        string, array, integers, nil, status, error, Bool.false_eq_true, if_false]

mutual

/-- The reply without the elements of other types, at every depth. -/
def Raw.prune : Raw → Raw
  | .null => .null
  | .mk type integer str element => .mk type integer str (Raw.pruneAll element)

def Raw.pruneAll : List Raw → List Raw
  | [] => []
  | reply :: rest =>
      if reply.known then reply.prune :: Raw.pruneAll rest else Raw.pruneAll rest

end

/-- Only an array has elements to copy. -/
theorem ofReply_of_not_array {type : Int} (other : int16 type ≠ replyArray) (integer : Int)
    (str : Text) (element pruned : List Raw) :
    ofReply (.mk type integer str element) = ofReply (.mk type integer str pruned) := by
  simp only [ofReply, parseFrom, if_neg (Ne.symm other)]

mutual

/-- Elements of other types leave no trace. -/
theorem printRedisValue_prune : ∀ (indent : Nat) (reply : Raw),
    printRedisValue indent (ofReply reply) = printRedisValue indent (ofReply reply.prune)
  | _, .null => rfl
  | indent, .mk type integer str element => by
      rw [Raw.prune]
      by_cases array : int16 type = replyArray
      · obtain ⟨isArray, items⟩ := ofReply_array array integer str element
        obtain ⟨stillArray, kept⟩ := ofReply_array array integer str (Raw.pruneAll element)
        rw [printRedisValue_array isArray, printRedisValue_array stillArray, items, kept,
          printItems_pruneAll]
      · rw [ofReply_of_not_array array integer str element (Raw.pruneAll element)]

theorem printItems_pruneAll : ∀ (indent : Nat) (element : List Raw),
    printItems indent (emplaceAll element) =
      printItems indent (emplaceAll (Raw.pruneAll element))
  | _, [] => rfl
  | indent, reply :: rest => by
      have later := printItems_pruneAll indent rest
      rw [emplaceAll, printItems, later, Raw.pruneAll]
      cases known : reply.known with
      | true =>
          have first := printRedisValue_prune indent reply
          rw [if_pos rfl, emplaceAll, printItems]
          exact congrArg (· ++ _) first
      | false =>
          have nothing := printRedisValue_unknown known indent
          rw [if_neg Bool.false_ne_true]
          exact congrArg (· ++ _) nothing

end

/-- A client can tell from the members of a `RedisReply` what the server has sent.  What
`dumpResult` prints of two replies is equal only if the replies are, as long as no text has a
line break.  Elements whose type is none of the six leave no trace there, at any depth. -/
theorem reply_round_trip :
    (∀ reply : RedisReply, told reply.copied = some reply) ∧
    (∀ first second : RedisReply, first.OneLine → second.OneLine →
      (dumpResult first.copied = dumpResult second.copied ↔ first = second)) ∧
    ∀ reply : Raw, dumpResult (ofReply reply) = dumpResult (ofReply reply.prune) := by
  refine ⟨RedisReply.told_copied, fun first second firstLine secondLine => ?_,
    printRedisValue_prune 0⟩
  exact ⟨RedisReply.dumpResult_injective firstLine secondLine, fun same => same ▸ rfl⟩

/-- A missing item is printed, and a double of a newer protocol inside of an item is not. -/
theorem cart_printed :
    dumpResult (RedisReply.array [.string "item1", .nil]).copied ≠
        dumpResult (RedisReply.array [.string "item1"]).copied ∧
      dumpResult (ofReply (.mk replyArray 0 [] [.mk replyArray 0 [] [.mk 7 0 "1.5".toList []]])) =
        dumpResult (ofReply (.mk replyArray 0 [] [.mk replyArray 0 [] []])) := by
  obtain ⟨_, printed, pruned⟩ := reply_round_trip
  have firstLine : (RedisReply.array [.string "item1", .nil]).OneLine :=
    ⟨(by decide : '\n' ∉ "item1".toList), trivial, trivial⟩
  have secondLine : (RedisReply.array [.string "item1"]).OneLine :=
    ⟨(by decide : '\n' ∉ "item1".toList), trivial⟩
  refine ⟨fun same => ?_, pruned _⟩
  have equal := (printed _ _ firstLine secondLine).mp same
  simp at equal

end Cncpp.Redis

import Cncpp.Machine.Word
import Mathlib.Data.List.TakeWhile

/-!
# Commands given as one text

`RedisConn::command` passes its text to `redisCommand`, which reads it as a format;
`RedisConn::command_argv` passes every argument with its length.

hiredis is outside of the repository.  Of `redisCommand` it is used that a format is split
at spaces, that two percent signs stand for one, and that any other percent sign begins a
conversion, which takes a variadic argument.  Whether a percent sign at the end of the
format begins a conversion as well, or is a character like any other, is left open:
`closing` tells that it is a character.
-/

namespace Cncpp.Redis.Format

open Cncpp.Machine

/-- `std::string::c_str` for a function that reads up to the first null character. -/
def cString (text : Text) : Text :=
  text.takeWhile (· ≠ '\x00')

/-- The characters of a format, read behind the argument `current`, which is none before
its first character.  There is no result where a conversion is read: no variadic argument
is passed for it. -/
def readFormat (closing : Bool) : Option Text → Text → Option (List Text)
  | current, [] => some current.toList
  | current, char :: rest =>
      if char = ' ' then (readFormat closing none rest).map (current.toList ++ ·)
      else if char = '%' then
        match rest with
        | [] => if closing then some [current.getD [] ++ ['%']] else none
        | next :: rest =>
            if next = '%' then readFormat closing (some (current.getD [] ++ ['%'])) rest
            else none
      else readFormat closing (some (current.getD [] ++ [char])) rest

/-- The arguments that `redisCommand` sends for a format without variadic arguments. -/
def redisCommand (closing : Bool) (format : Text) : Option (List Text) :=
  readFormat closing none format

/-- The arguments that `redisCommandArgv` sends. -/
def redisCommandArgv (argc : Int) (argv : List Text) (argvlen : List Nat) : List Text :=
  (List.zipWith List.take argvlen argv).take argc.toNat

/-- The arguments that `RedisConn::command` sends. -/
def command (closing : Bool) (cmd : Text) : Option (List Text) :=
  redisCommand closing (cString cmd)

/-- The arguments that `RedisConn::command_argv` sends. -/
def commandArgv (args : List Text) : List Text :=
  redisCommandArgv (int32 args.length) args (args.map List.length)

/-- `fmt::format`, for a format whose only braces are those of its fields. -/
def format : Text → List Text → Text
  | '{' :: '}' :: rest, text :: texts => text ++ format rest texts
  | char :: rest, texts => char :: format rest texts
  | [], _ => []

/-- The command of `SetTask::work`. -/
def SetTask.work (closing : Bool) (key value : Text) : Option (List Text) :=
  command closing (format "SET {} {}".toList [key, value])

/-- The command of `GetTask::work`. -/
def GetTask.work (closing : Bool) (key : Text) : Option (List Text) :=
  command closing (format "GET {}".toList [key])

@[simp]
theorem readFormat_nil (closing : Bool) (current : Option Text) :
    readFormat closing current [] = some current.toList :=
  rfl

@[simp]
theorem readFormat_space (closing : Bool) (current : Option Text) (rest : Text) :
    readFormat closing current (' ' :: rest) =
      (readFormat closing none rest).map (current.toList ++ ·) := by
  cases rest <;> rfl

theorem readFormat_char (closing : Bool) (current : Option Text) {char : Char}
    (notSpace : char ≠ ' ') (notPercent : char ≠ '%') (rest : Text) :
    readFormat closing current (char :: rest) =
      readFormat closing (some (current.getD [] ++ [char])) rest := by
  cases rest <;> simp [readFormat, notSpace, notPercent]

/-! ## Argument vectors -/

theorem zipWith_take_length (args : List Text) :
    List.zipWith List.take (args.map List.length) args = args := by
  induction args with
  | nil => rfl
  | cons arg args ih => rw [List.map_cons, List.zipWith_cons_cons, ih, List.take_length]

/-- An argument vector is sent as it is. -/
theorem commandArgv_eq {args : List Text} (fits : args.length < 2 ^ 31) :
    commandArgv args = args := by
  rw [commandArgv, redisCommandArgv, zipWith_take_length, int32_of_lt fits, Int.toNat_natCast,
    List.take_length]

/-! ## Words joined by spaces -/

/-- Words with a space between them. -/
def joined (words : List Text) : Text :=
  [' '].intercalate words

@[simp]
theorem joined_nil : joined [] = [] :=
  rfl

@[simp]
theorem joined_singleton (word : Text) : joined [word] = word := by
  simp [joined, List.intercalate]

@[simp]
theorem joined_cons_cons (word next : Text) (rest : List Text) :
    joined (word :: next :: rest) = word ++ ' ' :: joined (next :: rest) := by
  rw [joined, List.intercalate_cons_cons, List.append_assoc, List.singleton_append, joined]

theorem format_set (key value : Text) :
    format "SET {} {}".toList [key, value] = joined ["SET".toList, key, value] := by
  simp [format]

theorem format_get (key : Text) :
    format "GET {}".toList [key] = joined ["GET".toList, key] := by
  simp [format]

/-- The characters other than spaces. -/
def letters (text : Text) : Nat :=
  text.countP (· ≠ ' ')

theorem letters_append (left right : Text) :
    letters (left ++ right) = letters left + letters right :=
  List.countP_append

theorem letters_cons_of_ne {char : Char} (other : char ≠ ' ') (text : Text) :
    letters (char :: text) = letters text + 1 :=
  List.countP_cons_of_pos (by simpa using other)

@[simp]
theorem letters_space (text : Text) : letters (' ' :: text) = letters text :=
  List.countP_cons_of_neg (by simp)

theorem letters_le (text : Text) : letters text ≤ text.length :=
  List.countP_le_length

/-- Percent signs only at the end, and there only if they are characters. -/
def Quiet (closing : Bool) (text : Text) : Prop :=
  ∀ front back, text = front ++ '%' :: back → back = [] ∧ closing = true

theorem quiet_nil (closing : Bool) : Quiet closing [] := by
  intro front back split
  simp at split

theorem Quiet.cons {closing : Bool} {char : Char} {text : Text} (other : char ≠ '%')
    (quiet : Quiet closing text) : Quiet closing (char :: text) := by
  intro front back split
  cases front with
  | nil => exact absurd (List.cons.inj split).1 other
  | cons first front => exact quiet front back (List.cons.inj split).2

/-- The arguments have no more characters than the format has characters other than spaces,
and fewer where a percent sign is written twice. -/
theorem readFormat_length {closing : Bool} {current : Option Text} {text : Text}
    {args : List Text} (read : readFormat closing current text = some args) :
    args.flatten.length ≤ (current.getD []).length + letters text ∧
      (args.flatten.length = (current.getD []).length + letters text → Quiet closing text) := by
  fun_induction readFormat closing current text generalizing args with
  | case1 current =>
      obtain rfl := Option.some.inj read
      cases current with
      | none => simp [quiet_nil]
      | some arg => simp [quiet_nil, letters]
  | case2 current rest ih =>
      obtain ⟨following, rest_read, rfl⟩ := Option.map_eq_some_iff.mp read
      obtain ⟨bound, exact⟩ := ih rest_read
      have start : current.toList.flatten.length = (current.getD []).length := by
        cases current <;> simp
      rw [List.flatten_append, List.length_append, start, letters_space]
      simp only [Option.getD_none, List.length_nil, Nat.zero_add] at bound exact
      exact ⟨by omega, fun same => (exact (by omega)).cons (by decide)⟩
  | case3 current closed _ =>
      obtain rfl := Option.some.inj read
      refine ⟨by simp [letters], fun _ front back split => ⟨?_, closed⟩⟩
      cases front with
      | nil => exact (List.cons.inj split).2.symm
      | cons first front =>
          have rest := (List.cons.inj split).2
          simp at rest
  | case4 => exact absurd read (by simp)
  | case5 current rest _ ih =>
      obtain ⟨bound, _⟩ := ih read
      have twice : letters ('%' :: '%' :: rest) = letters rest + 2 := by
        rw [letters_cons_of_ne (by decide), letters_cons_of_ne (by decide)]
      simp only [Option.getD_some, List.length_append, List.length_singleton] at bound
      rw [twice]
      exact ⟨by omega, fun same => by omega⟩
  | case6 => exact absurd read (by simp)
  | case7 current char rest notSpace notPercent ih =>
      obtain ⟨bound, exact⟩ := ih read
      simp only [Option.getD_some, List.length_append, List.length_singleton] at bound exact
      rw [letters_cons_of_ne notSpace]
      exact ⟨by omega, fun same => (exact (by omega)).cons notPercent⟩

/-! ## When the words come back -/

/-- No space, no percent sign and no null character. -/
def Plain (text : Text) : Prop :=
  ∀ char ∈ text, char ≠ ' ' ∧ char ≠ '%' ∧ char ≠ '\x00'

instance (text : Text) : Decidable (Plain text) :=
  List.decidableBAll _ text

/-- Plain, up to a percent sign at the end that is a character. -/
def PlainToEnd (closing : Bool) (text : Text) : Prop :=
  Plain text ∨ closing = true ∧ ∃ front, text = front ++ ['%'] ∧ Plain front

/-- All words are plain, the last one up to its end. -/
def Sendable (closing : Bool) : List Text → Prop
  | [] => True
  | [last] => PlainToEnd closing last
  | word :: next :: rest => Plain word ∧ Sendable closing (next :: rest)

theorem readFormat_plain (closing : Bool) (arg : Text) {text : Text} (plain : Plain text)
    (rest : Text) :
    readFormat closing (some arg) (text ++ rest) =
      readFormat closing (some (arg ++ text)) rest := by
  induction text generalizing arg with
  | nil => simp
  | cons char text ih =>
      obtain ⟨notSpace, notPercent, _⟩ := plain char List.mem_cons_self
      rw [List.cons_append, readFormat_char _ _ notSpace notPercent, Option.getD_some,
        ih _ fun other member => plain other (List.mem_cons_of_mem _ member), List.append_assoc,
        List.singleton_append]

/-- A plain word that is not empty is read into an argument. -/
theorem readFormat_word (closing : Bool) {word : Text} (nonempty : word ≠ []) (plain : Plain word)
    (rest : Text) :
    readFormat closing none (word ++ rest) = readFormat closing (some word) rest := by
  cases word with
  | nil => exact absurd rfl nonempty
  | cons char text =>
      obtain ⟨notSpace, notPercent, _⟩ := plain char List.mem_cons_self
      rw [List.cons_append, readFormat_char _ _ notSpace notPercent, Option.getD_none,
        List.nil_append,
        readFormat_plain closing [char]
          (fun other member => plain other (List.mem_cons_of_mem _ member)),
        List.singleton_append]

theorem readFormat_last {closing : Bool} {word : Text} (nonempty : word ≠ [])
    (plain : PlainToEnd closing word) : readFormat closing none word = some [word] := by
  rcases plain with plain | ⟨closed, front, rfl, plain⟩
  · have read := readFormat_word closing nonempty plain []
    rw [List.append_nil] at read
    rw [read, readFormat_nil, Option.toList_some]
  · have percent (current : Option Text) :
        readFormat closing current ['%'] = some [current.getD [] ++ ['%']] := by
      simp [readFormat, closed]
    cases front with
    | nil => simpa using percent none
    | cons char front =>
        rw [readFormat_word closing (List.cons_ne_nil _ _) plain, percent, Option.getD_some]

theorem readFormat_joined {closing : Bool} {words : List Text}
    (nonempty : ∀ word ∈ words, word ≠ []) (sendable : Sendable closing words) :
    readFormat closing none (joined words) = some words := by
  induction words with
  | nil => rfl
  | cons word rest ih =>
      have here := nonempty word List.mem_cons_self
      cases rest with
      | nil =>
          rw [joined_singleton]
          exact readFormat_last here sendable
      | cons next rest =>
          obtain ⟨plain, following⟩ := sendable
          have behind := ih (fun other member => nonempty other (List.mem_cons_of_mem _ member))
            following
          rw [joined_cons_cons, readFormat_word closing here plain, readFormat_space, behind,
            Option.map_some, Option.toList_some, List.singleton_append]

/-- The words of a format have no more characters than the format. -/
theorem letters_joined_le (words : List Text) :
    letters (joined words) ≤ words.flatten.length ∧
      (letters (joined words) = words.flatten.length →
        ∀ word ∈ words, ∀ char ∈ word, char ≠ ' ') := by
  induction words with
  | nil => simp [letters]
  | cons word rest ih =>
      obtain ⟨bound, exact⟩ := ih
      have here := letters_le word
      have count : letters (joined (word :: rest)) = letters word + letters (joined rest) := by
        cases rest with
        | nil => simp [letters]
        | cons next rest => rw [joined_cons_cons, letters_append, letters_space]
      rw [count, List.flatten_cons, List.length_append]
      refine ⟨by omega, fun same other member => ?_⟩
      rcases List.mem_cons.mp member with rfl | member
      · have full : letters other = other.length := by omega
        have all := List.countP_eq_length.mp full
        exact fun char inside => by simpa using all char inside
      · exact exact (by omega) other member

/-- A text whose letters are all in front of its first null character has none. -/
theorem cString_eq {text : Text} (all : letters text ≤ letters (cString text)) :
    cString text = text := by
  have split : cString text ++ text.dropWhile (· ≠ '\x00') = text := List.takeWhile_append_dropWhile
  cases behind : text.dropWhile (· ≠ '\x00') with
  | nil => rw [behind, List.append_nil] at split; exact split
  | cons char rest =>
      have null : char = '\x00' := by
        have some_behind : text.dropWhile (· ≠ '\x00') ≠ [] := by
          rw [behind]
          exact List.cons_ne_nil _ _
        have stop := List.head_dropWhile_not (· ≠ '\x00') some_behind
        simp only [behind, List.head_cons] at stop
        simpa using stop
      have count := congrArg letters split
      rw [behind, letters_append, null, letters_cons_of_ne (by decide)] at count
      omega

/-- In front of other characters there is no percent sign. -/
theorem Quiet.not_mem {closing : Bool} {left right : Text} (quiet : Quiet closing (left ++ right))
    (behind : right ≠ []) : '%' ∉ left := by
  intro member
  obtain ⟨front, back, rfl⟩ := List.append_of_mem member
  obtain ⟨nothing, _⟩ := quiet front (back ++ right) (by simp)
  exact behind (List.append_eq_nil_iff.mp nothing).2

theorem Quiet.of_append {closing : Bool} {left right : Text}
    (quiet : Quiet closing (left ++ right)) : Quiet closing right := by
  intro front back split
  exact quiet (left ++ front) back (by rw [split, List.append_assoc])

/-- No space, no percent sign but the last character, and no null character. -/
theorem Quiet.plainToEnd {closing : Bool} {text : Text} (quiet : Quiet closing text)
    (others : ∀ char ∈ text, char ≠ ' ' ∧ char ≠ '\x00') : PlainToEnd closing text := by
  by_cases percent : '%' ∈ text
  · obtain ⟨front, back, rfl⟩ := List.append_of_mem percent
    obtain ⟨rfl, closed⟩ := quiet front back rfl
    refine Or.inr ⟨closed, front, rfl, fun char member => ?_⟩
    obtain ⟨notSpace, notNull⟩ := others char (List.mem_append_left _ member)
    refine ⟨notSpace, fun same => ?_, notNull⟩
    exact quiet.not_mem (List.cons_ne_nil _ _) (same ▸ member)
  · refine Or.inl fun char member => ?_
    obtain ⟨notSpace, notNull⟩ := others char member
    exact ⟨notSpace, fun same => percent (same ▸ member), notNull⟩

theorem sendable_of_quiet {closing : Bool} {words : List Text}
    (others : ∀ word ∈ words, ∀ char ∈ word, char ≠ ' ' ∧ char ≠ '\x00')
    (quiet : Quiet closing (joined words)) : Sendable closing words := by
  induction words with
  | nil => trivial
  | cons word rest ih =>
      have here := others word List.mem_cons_self
      cases rest with
      | nil =>
          rw [joined_singleton] at quiet
          exact quiet.plainToEnd here
      | cons next rest =>
          rw [joined_cons_cons] at quiet
          have noPercent := quiet.not_mem (List.cons_ne_nil _ _)
          have plain : Plain word := fun char member =>
            ⟨(here char member).1, fun same => noPercent (same ▸ member), (here char member).2⟩
          have behind : Quiet closing (joined (next :: rest)) :=
            @Quiet.of_append closing [' '] _ quiet.of_append
          exact ⟨plain, ih (fun other member => others other (List.mem_cons_of_mem _ member))
            behind⟩

/-- The characters of the words are in the joined text. -/
theorem mem_joined {words : List Text} {word : Text} {char : Char} (member : word ∈ words)
    (inside : char ∈ word) : char ∈ joined words := by
  induction words with
  | nil => exact absurd member List.not_mem_nil
  | cons first rest ih =>
      cases rest with
      | nil =>
          obtain rfl := List.mem_singleton.mp member
          rwa [joined_singleton]
      | cons next rest =>
          rw [joined_cons_cons, List.mem_append, List.mem_cons]
          rcases List.mem_cons.mp member with rfl | member
          · exact Or.inl inside
          · exact Or.inr (Or.inr (ih member))

theorem PlainToEnd.not_null {closing : Bool} {text : Text} (plain : PlainToEnd closing text) :
    '\x00' ∉ text := by
  intro member
  rcases plain with plain | ⟨_, front, rfl, plain⟩
  · exact (plain _ member).2.2 rfl
  · rcases List.mem_append.mp member with member | member
    · exact (plain _ member).2.2 rfl
    · exact absurd (List.mem_singleton.mp member) (by decide)

theorem Sendable.not_null {closing : Bool} {words : List Text} (sendable : Sendable closing words) :
    '\x00' ∉ joined words := by
  induction words with
  | nil => exact List.not_mem_nil
  | cons word rest ih =>
      cases rest with
      | nil =>
          rw [joined_singleton]
          exact PlainToEnd.not_null sendable
      | cons next rest =>
          obtain ⟨plain, following⟩ := sendable
          rw [joined_cons_cons, List.mem_append, List.mem_cons]
          rintro (member | space | member)
          · exact (plain _ member).2.2 rfl
          · exact absurd space (by decide)
          · exact ih following member

/-- `command` sends words joined by spaces exactly when all of them are plain, the last one
up to its end. -/
theorem command_joined_iff {closing : Bool} {words : List Text}
    (nonempty : ∀ word ∈ words, word ≠ []) :
    command closing (joined words) = some words ↔ Sendable closing words := by
  constructor
  · intro sent
    obtain ⟨bound, exact⟩ := readFormat_length sent
    simp only [Option.getD_none, List.length_nil, Nat.zero_add] at bound exact
    obtain ⟨most, noSpace⟩ := letters_joined_le words
    have whole : cString (joined words) = joined words := cString_eq (by omega)
    rw [whole] at bound exact
    have noNull : '\x00' ∉ joined words := by
      intro member
      rw [← whole] at member
      simpa using List.mem_takeWhile_imp member
    have full : words.flatten.length = letters (joined words) := by omega
    exact sendable_of_quiet
      (fun word member char inside =>
        ⟨noSpace full.symm word member char inside,
          fun same => noNull (same ▸ mem_joined member inside)⟩)
      (exact full)
  · intro sendable
    have whole : cString (joined words) = joined words := by
      rw [cString, List.takeWhile_eq_self_iff]
      intro char member
      have notNull : char ≠ '\x00' := fun same => sendable.not_null (same ▸ member)
      simpa using notNull
    rw [command, whole]
    exact readFormat_joined nonempty sendable

/-- `SetTask` and `GetTask` send what `command_argv` would send exactly when key and value
are plain, the last word up to its end. -/
theorem work_sends_iff (closing : Bool) {key value : Text} (keyNonempty : key ≠ [])
    (valueNonempty : value ≠ []) :
    (SetTask.work closing key value = some (commandArgv ["SET".toList, key, value]) ↔
        Plain key ∧ PlainToEnd closing value) ∧
      (GetTask.work closing key = some (commandArgv ["GET".toList, key]) ↔
        PlainToEnd closing key) := by
  have set : Plain "SET".toList := by decide
  have get : Plain "GET".toList := by decide
  rw [commandArgv_eq (by simp), commandArgv_eq (by simp), SetTask.work, GetTask.work, format_set,
    format_get, command_joined_iff, command_joined_iff]
  · exact ⟨and_iff_right set, and_iff_right get⟩
  · simpa using keyNonempty
  · simpa using ⟨keyNonempty, valueNonempty⟩

/-- A plain key and a plain value are sent as they are. -/
theorem work_sends_plain :
    SetTask.work false "k".toList "v".toList =
        some (commandArgv ["SET".toList, "k".toList, "v".toList]) ∧
      GetTask.work false "k".toList = some (commandArgv ["GET".toList, "k".toList]) := by
  have key : Plain "k".toList := by decide
  obtain ⟨set, get⟩ :=
    @work_sends_iff false "k".toList "v".toList (by decide) (by decide)
  exact ⟨set.mpr ⟨key, Or.inl (by decide)⟩, get.mpr (Or.inl key)⟩

/-- A value with a space is sent as two arguments, and one with a percent sign in it is
read as a conversion. -/
theorem work_sends_other_words :
    SetTask.work true "k".toList "a b".toList =
        some ["SET".toList, "k".toList, "a".toList, "b".toList] ∧
      SetTask.work false "k".toList "a b".toList ≠
        some (commandArgv ["SET".toList, "k".toList, "a b".toList]) ∧
      SetTask.work true "k".toList "a b".toList ≠
        some (commandArgv ["SET".toList, "k".toList, "a b".toList]) ∧
      SetTask.work true "k".toList "5%d".toList = none ∧
      SetTask.work false "k".toList "5%d".toList = none ∧
      GetTask.work true "a b".toList ≠ some (commandArgv ["GET".toList, "a b".toList]) := by
  decide +kernel

end Cncpp.Redis.Format

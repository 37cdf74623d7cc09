import Cncpp.Mysql.ReplaceAll

/-!
# The size of the statements

`replaceAll` compares the size of the text with the limit after it has appended a row, and
the limit is 1000 below the packet size of the server.  A batch that is still within the
limit has therefore room for one more row of 997 bytes, and a longer row can take the
statement beyond the packet size.
-/

namespace Cncpp.Mysql

open Cncpp.Batch
open Cncpp.Machine

variable {Row : Type}

/-- Every row can be sent in a statement of its own. -/
def EachFits (db : Table Row) (packet : Nat) (cont : List Row) : Prop :=
  ∀ row ∈ cont, (db.statement [row]).length ≤ packet - surplusSize

/-- No text that is executed is longer than the packet size. -/
def WithinPacket (db : Table Row) (shown : Option Nat) (cont : List Row) : Prop :=
  ∀ answers, ∀ text ∈ (replaceAll db shown answers cont).2,
    text.length ≤ getMaxMysqlPacketSize shown

/-- Cut batches off the beginning of the container, each of which exceeds the limit with its
last row and not before.  Whenever the rows that follow are within the limit, the row after
them fits in what they leave of the packet. -/
def RoomForNext (db : Table Row) (packet : Nat) (cont : List Row) : Prop :=
  ∀ (closed : List (List Row)) (batch : List Row) (row : Row) (after : List Row),
    (∀ part ∈ closed, Filled (db.full (packet - surplusSize)) part) →
      cont = closed.flatten ++ (batch ++ row :: after) →
        batch ≠ [] → (db.statement batch).length ≤ packet - surplusSize →
          (db.valueList row).length + 3 ≤ packet - (db.statement batch).length

/-! ## Sizes -/

namespace Table

variable (db : Table Row)

theorem length_concat {batch : List Row} (nonempty : batch ≠ []) (row : Row) :
    (db.statement (batch ++ [row])).length =
      (db.statement batch).length + ((db.valueList row).length + 3) := by
  rw [statement_concat _ nonempty, List.length_append, List.length_cons, length_tuple]

variable {db} {maxSafe : Nat}

/-- The text of a batch is at least as long as the text of a beginning. -/
theorem length_le_of_isPrefix {front batch : List Row} (before : front <+: batch) :
    (db.statement front).length ≤ (db.statement batch).length := by
  obtain ⟨rest, rfl⟩ := before
  induction rest using List.reverseRecOn with
  | nil => rw [List.append_nil]
  | append_singleton rest row ih =>
      have longer := db.length_statement_concat (front ++ rest) row
      rw [← List.append_assoc]
      omega

/-- A batch is open when its text is within the limit. -/
theorem open_of_length {batch : List Row} (within : (db.statement batch).length ≤ maxSafe) :
    Open (db.full maxSafe) batch := by
  intro front before _
  exact decide_eq_false (Nat.not_lt.mpr ((length_le_of_isPrefix before).trans within))

theorem length_of_open_ne_nil {batch : List Row} (isOpen : Open (db.full maxSafe) batch)
    (nonempty : batch ≠ []) : (db.statement batch).length ≤ maxSafe :=
  Nat.not_lt.mp (of_decide_eq_false (isOpen batch List.prefix_rfl nonempty))

end Table

/-! ## Statements that are sent -/

variable {db : Table Row} {shown : Option Nat} {cont : List Row}

theorem getMaxSafeMysqlPacketSize_eq (large : surplusSize < getMaxMysqlPacketSize shown) :
    getMaxSafeMysqlPacketSize shown = getMaxMysqlPacketSize shown - surplusSize := by
  rw [getMaxSafeMysqlPacketSize]
  simp only [Nat.not_le.mpr large, Nat.ne_zero_of_lt large, or_self, if_false]

/-- When `execute` always succeeds, the statements of all batches are sent. -/
theorem replaceAll_all (positive : getMaxSafeMysqlPacketSize shown ≠ 0) :
    (replaceAll db shown (fun _ => .rows 0) cont).2 =
      (batches (db.full (getMaxSafeMysqlPacketSize shown)) [] cont).map db.statement := by
  rw [replaceAll_eq_deliver db positive, deliver_all fun _ _ => ⟨0, rfl⟩]
  rfl

/-- A row that fills a batch is sent with it. -/
theorem statement_mem_replaceAll {closed : List (List Row)} {batch : List Row} {row : Row}
    (after : List Row) (positive : getMaxSafeMysqlPacketSize shown ≠ 0)
    (filled : ∀ part ∈ closed, Filled (db.full (getMaxSafeMysqlPacketSize shown)) part)
    (isOpen : Open (db.full (getMaxSafeMysqlPacketSize shown)) batch)
    (isFull : db.full (getMaxSafeMysqlPacketSize shown) (batch ++ [row]) = true) :
    db.statement (batch ++ [row]) ∈
      (replaceAll db shown (fun _ => .rows 0) (closed.flatten ++ (batch ++ row :: after))).2 := by
  have next : ∀ part ∈ [batch ++ [row]],
      Filled (db.full (getMaxSafeMysqlPacketSize shown)) part :=
    List.forall_mem_singleton.mpr ⟨batch, row, rfl, isOpen, isFull⟩
  have cut := batches_filled next after
  rw [List.flatten_singleton, List.append_assoc, List.singleton_append] at cut
  rw [replaceAll_all positive, batches_filled filled, cut]
  simp

/-- Rows of at most 997 bytes always have room. -/
theorem roomForNext_of_short (packet : Nat) (large : surplusSize < packet)
    (short : ∀ row ∈ cont, (db.valueList row).length ≤ 997) : RoomForNext db packet cont := by
  rintro closed batch row after _ rfl _ within
  have bound := short row (by simp)
  rw [surplusSize] at large within
  omega

/-- The statements stay within the packet size exactly when each row has room after the
rows that it is appended to. -/
theorem withinPacket_iff_roomForNext
    (large : surplusSize < getMaxMysqlPacketSize shown)
    (fits : EachFits db (getMaxMysqlPacketSize shown) cont) :
    WithinPacket db shown cont ↔ RoomForNext db (getMaxMysqlPacketSize shown) cont := by
  have limit := getMaxSafeMysqlPacketSize_eq large
  constructor
  · rintro within closed batch row after filled rfl nonempty short
    have length := Table.length_concat db nonempty row
    rw [← limit] at filled short
    by_cases isFull : db.full (getMaxSafeMysqlPacketSize shown) (batch ++ [row]) = true
    · have sent := within _ _ (statement_mem_replaceAll after (by omega) filled
        (Table.open_of_length short) isFull)
      omega
    · have still : (db.statement (batch ++ [row])).length ≤ getMaxSafeMysqlPacketSize shown :=
        Nat.not_lt.mp fun exceeds => isFull (decide_eq_true exceeds)
      omega
  · intro room answers text member
    obtain ⟨batch, inside, rfl⟩ := mem_replaceAll member
    have nonempty := batches_ne_nil inside
    rw [limit] at inside
    rcases mem_batches open_nil inside with isOpen | ⟨⟨front, last, rfl, isOpen, _⟩, split⟩
    · have short := Table.length_of_open_ne_nil isOpen nonempty
      omega
    · obtain ⟨closed, rest, filled, same⟩ := split
      rw [List.nil_append] at same
      by_cases first : front = []
      · have alone := fits last (by simp [same])
        rw [first, List.nil_append]
        omega
      · have short := Table.length_of_open_ne_nil isOpen first
        have space := room closed front last rest filled (by simp [same]) first short
        have length := Table.length_concat db first last
        omega

/-- A table whose rows are the texts of a single column. -/
def texts : Table Text :=
  { table := ['t'], fieldList := ['c'], valueList := id }

/-- A row with 1500 characters. -/
def longRow : Text :=
  List.replicate 1500 'a'

theorem length_texts (row : Text) : (texts.statement [row]).length = row.length + 29 := by
  have head : texts.head.length = 27 := by decide
  rw [Table.statement_singleton, List.length_append, head, Table.length_tuple]
  exact Nat.add_comm _ _

theorem eachFits_texts {packet : Nat} {cont : List Text}
    (short : ∀ row ∈ cont, row.length + 29 ≤ packet - surplusSize) :
    EachFits texts packet cont := by
  intro row member
  rw [length_texts]
  exact short row member

/-- With a packet size of 3000, two rows of 1500 characters are sent in one statement. -/
theorem longRow_exceeds_packet :
    surplusSize < getMaxMysqlPacketSize (some 3000) ∧
      EachFits texts (getMaxMysqlPacketSize (some 3000)) [longRow, longRow] ∧
      ¬WithinPacket texts (some 3000) [longRow, longRow] := by
  have packet : getMaxMysqlPacketSize (some 3000) = 3000 := by decide
  have large : surplusSize < getMaxMysqlPacketSize (some 3000) := by decide
  have size : longRow.length = 1500 := List.length_replicate
  have both := Table.length_concat texts (List.cons_ne_nil longRow []) longRow
  have value : (texts.valueList longRow).length = 1500 := size
  rw [length_texts, size, value] at both
  refine ⟨large, ?_, ?_⟩
  · apply eachFits_texts
    intro row member
    have same : row = longRow := by simpa using member
    rw [same, size, packet, surplusSize]
    decide
  · intro within
    have limit : getMaxSafeMysqlPacketSize (some 3000) = 2000 := by decide
    have isFull : texts.full (getMaxSafeMysqlPacketSize (some 3000))
        ([longRow] ++ [longRow]) = true := by
      rw [Table.full, both, limit]
      decide
    have isOpen : Open (texts.full (getMaxSafeMysqlPacketSize (some 3000))) [longRow] := by
      apply Table.open_of_length
      rw [length_texts, size, limit]
      decide
    have member := @statement_mem_replaceAll _ _ _ [] _ _ [] (by decide)
      (List.forall_mem_nil _) isOpen isFull
    rw [List.flatten_nil, List.nil_append, List.singleton_append] at member
    have sent := within _ _ member
    rw [← List.singleton_append, both, packet] at sent
    exact absurd sent (by decide)

/-- A row with 997 characters. -/
def shortRow : Text :=
  List.replicate 997 'a'

/-- With this packet size two rows of 997 characters fill a batch, and a third one is sent
alone. -/
theorem short_rows_within :
    WithinPacket texts (some 3000) [shortRow, shortRow, shortRow] ∧
      (replaceAll texts (some 3000) (fun _ => .rows 0) [shortRow, shortRow, shortRow]).2 =
        [texts.statement [shortRow, shortRow], texts.statement [shortRow]] := by
  have packet : getMaxMysqlPacketSize (some 3000) = 3000 := by decide
  have size : shortRow.length = 997 := List.length_replicate
  have short : ∀ row ∈ [shortRow, shortRow, shortRow], row.length = 997 := by
    intro row member
    have same : row = shortRow := by simpa using member
    rw [same, size]
  constructor
  · refine (withinPacket_iff_roomForNext (by decide) ?_).mpr ?_
    · apply eachFits_texts
      intro row member
      rw [short row member, packet, surplusSize]
      decide
    · exact roomForNext_of_short _ (by decide) fun row member => Nat.le_of_eq (short row member)
  · rw [replaceAll_all (by decide)]
    decide +kernel

end Cncpp.Mysql

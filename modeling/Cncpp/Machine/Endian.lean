import Mathlib.Data.List.GetD

/-!
# Little-endian words

A 64-bit word and its bytes, lowest byte first.  `ofBytes` reads a word and
`toBytes` lists its eight bytes, which undoes the reading of eight bytes.  `words`
reads a string of bytes as a list of words, and the bytes of the words are the string
again when its length is a multiple of eight.
-/

namespace Cncpp.Machine.Endian

/-- A byte as a 64-bit word. -/
def widen (byte : UInt8) : BitVec 64 :=
  byte.toBitVec.setWidth 64

/-- The word whose bytes are `bytes`, lowest first. -/
def ofBytes : List UInt8 → BitVec 64
  | [] => 0
  | byte :: rest => widen byte ||| ofBytes rest <<< 8

/-- The byte at `index` of a word. -/
def byteAt (word : BitVec 64) (index : Nat) : UInt8 :=
  UInt8.ofBitVec ((word >>> (8 * index)).setWidth 8)

/-- The eight bytes of a word, lowest first. -/
def toBytes (word : BitVec 64) : List UInt8 :=
  (List.range 8).map (byteAt word)

@[simp]
theorem length_toBytes (word : BitVec 64) : (toBytes word).length = 8 := by
  simp [toBytes]

@[simp]
theorem ofBytes_singleton (byte : UInt8) : ofBytes [byte] = widen byte := by
  simp [ofBytes]

/-- Higher bytes stand above the lower ones. -/
theorem ofBytes_append (low high : List UInt8) :
    ofBytes (low ++ high) = ofBytes low ||| ofBytes high <<< (8 * low.length) := by
  induction low with
  | nil => simp [ofBytes]
  | cons byte low ih =>
      have shift : 8 * (byte :: low).length = 8 * low.length + 8 := by
        rw [List.length_cons]
        omega
      rw [List.cons_append, ofBytes, ih, ofBytes, BitVec.shiftLeft_or_distrib,
        ← BitVec.shiftLeft_add, shift, BitVec.or_assoc]

theorem ofBytes_replicate_zero (count : Nat) : ofBytes (List.replicate count 0) = 0 := by
  induction count with
  | zero => rfl
  | succ count ih =>
      rw [List.replicate_succ, ofBytes, ih]
      decide

/-- A bit of a word is a bit of one of its bytes. -/
theorem getLsbD_ofBytes (bytes : List UInt8) {bit : Nat} (inside : bit < 64) :
    (ofBytes bytes).getLsbD bit = (bytes.getD (bit / 8) 0).toBitVec.getLsbD (bit % 8) := by
  induction bytes generalizing bit with
  | nil => simp [ofBytes]
  | cons byte rest ih =>
      rw [ofBytes, BitVec.getLsbD_or, BitVec.getLsbD_shiftLeft, widen, BitVec.getLsbD_setWidth]
      by_cases first : bit < 8
      · have quotient : bit / 8 = 0 := by omega
        have remainder : bit % 8 = bit := by omega
        simp [first, inside, quotient, remainder]
      · have quotient : bit / 8 = (bit - 8) / 8 + 1 := by omega
        have remainder : bit % 8 = (bit - 8) % 8 := by omega
        have beyond : byte.toBitVec.getLsbD bit = false :=
          BitVec.getLsbD_of_ge _ _ (by omega)
        rw [ih (by omega), quotient, remainder, List.getD_cons_succ, beyond]
        simp [first, inside]

theorem getLsbD_byteAt (word : BitVec 64) (index : Nat) {bit : Nat} (inside : bit < 8) :
    (byteAt word index).toBitVec.getLsbD bit = word.getLsbD (8 * index + bit) := by
  simp [byteAt, inside]

/-- Eight bytes are the bytes of the word that they make. -/
theorem toBytes_ofBytes {bytes : List UInt8} (eight : bytes.length = 8) :
    toBytes (ofBytes bytes) = bytes := by
  apply List.ext_getElem (by rw [length_toBytes, eight])
  intro index _ inside
  simp only [toBytes, List.getElem_map, List.getElem_range]
  apply UInt8.toBitVec_inj.mp
  apply BitVec.eq_of_getLsbD_eq
  intro bit low
  have quotient : (8 * index + bit) / 8 = index := by omega
  have remainder : (8 * index + bit) % 8 = bit := by omega
  rw [getLsbD_byteAt _ _ low, getLsbD_ofBytes _ (by omega), quotient, remainder,
    List.getD_eq_getElem _ _ inside]

/-! ## Strings of words -/

/-- The words of a string of bytes, eight bytes each. -/
def words : List UInt8 → List (BitVec 64)
  | a :: b :: c :: d :: e :: f :: g :: h :: rest =>
      ofBytes [a, b, c, d, e, f, g, h] :: words rest
  | _ => []

/-- A string whose length is a positive multiple of eight starts with eight bytes. -/
theorem exists_block {bytes : List UInt8} {count : Nat}
    (length : bytes.length = 8 * (count + 1)) :
    ∃ block rest, bytes = block ++ rest ∧ block.length = 8 ∧ rest.length = 8 * count := by
  refine ⟨bytes.take 8, bytes.drop 8, (List.take_append_drop 8 bytes).symm, ?_, ?_⟩
  · rw [List.length_take]
    omega
  · rw [List.length_drop]
    omega

theorem words_block {block : List UInt8} (eight : block.length = 8) (rest : List UInt8) :
    words (block ++ rest) = ofBytes block :: words rest := by
  match block, eight with
  | [_, _, _, _, _, _, _, _], _ => rfl

theorem words_append {count : Nat} {front : List UInt8} (length : front.length = 8 * count)
    (back : List UInt8) : words (front ++ back) = words front ++ words back := by
  induction count generalizing front with
  | zero =>
      rw [List.eq_nil_of_length_eq_zero length]
      rfl
  | succ count ih =>
      obtain ⟨block, rest, rfl, eight, remaining⟩ := exists_block length
      rw [List.append_assoc, words_block eight, ih remaining, words_block eight,
        List.cons_append]

theorem words_eight {block : List UInt8} (eight : block.length = 8) :
    words block = [ofBytes block] := by
  have alone := words_block eight []
  rwa [List.append_nil] at alone

/-- The bytes of the words of a string are the string. -/
theorem flatMap_toBytes_words {count : Nat} {bytes : List UInt8}
    (length : bytes.length = 8 * count) : (words bytes).flatMap toBytes = bytes := by
  induction count generalizing bytes with
  | zero =>
      rw [List.eq_nil_of_length_eq_zero length]
      rfl
  | succ count ih =>
      obtain ⟨block, rest, rfl, eight, remaining⟩ := exists_block length
      rw [words_block eight, List.flatMap_cons, toBytes_ofBytes eight, ih remaining]

end Cncpp.Machine.Endian

import Cncpp.SipHash.Core

/-!
# SipHash of a message

SipHash-c-d on a key and a list of bytes, with nothing taken from the source but the record
of four words.  The message is filled up with zeros and the low byte of its length to a
whole number of words; the words are compressed into the state one after the other, with `c`
rounds each; after `d` further rounds the state is read out.  The macros of the source and
its constants are those of SipHash-2-4.

The words determine the message, and every message acts on the four variables by a
permutation, so that two keys never meet in one state.
-/

namespace Cncpp.SipHash

open Machine.Endian Memory

/-! ## The words of a message -/

/-- The message, zeros, and the low byte of the length. -/
def pad (message : List UInt8) : List UInt8 :=
  message ++ (List.replicate (7 - message.length % 8) 0 ++ [UInt8.ofNat message.length])

/-- The words that are mixed in. -/
def encode (message : List UInt8) : List (BitVec 64) :=
  words (pad message)

theorem length_pad (message : List UInt8) :
    (pad message).length = 8 * (message.length / 8 + 1) := by
  simp only [pad, List.length_append, List.length_replicate, List.length_singleton]
  omega

theorem pad_injective : Function.Injective pad := by
  intro message other same
  have lengths := congrArg List.length same
  rw [length_pad, length_pad] at lengths
  have bytes : UInt8.ofNat message.length = UInt8.ofNat other.length := by
    have ends := congrArg List.getLast? same
    simpa [pad, ← List.append_assoc] using ends
  have residues : message.length % 256 = other.length % 256 := by
    have values := congrArg UInt8.toNat bytes
    rwa [UInt8.toNat_ofNat', UInt8.toNat_ofNat'] at values
  have length : message.length = other.length := by omega
  exact (List.append_inj same length).1

/-- Two messages never have the same words. -/
theorem encode_injective : Function.Injective encode := by
  intro message other same
  have bytes := congrArg (List.flatMap toBytes) same
  rw [encode, encode, flatMap_toBytes_words (length_pad message),
    flatMap_toBytes_words (length_pad other)] at bytes
  exact pad_injective bytes

/-! ## The digest -/

/-- A key of 16 bytes, as two words. -/
@[ext]
structure Key where
  k0 : BitVec 64
  k1 : BitVec 64
  deriving DecidableEq

/-- The key whose bytes stand in memory at `k`. -/
def Key.at (memory : Nat → UInt8) (k : Nat) : Key :=
  ⟨ofBytes (window memory k 8), ofBytes (window memory (k + 8) 8)⟩

/-- Add the second word to the first, and xor the sum into the rotated second word. -/
def halfRound (r : Nat) (first second : BitVec 64) : BitVec 64 × BitVec 64 :=
  (first + second, second.rotateLeft r ^^^ (first + second))

/-- SipRound: half rounds of the neighbours, then half rounds crosswise, with a rotation of
each sum by half a word. -/
def round (vars : Vars) : Vars :=
  let (v0, v1) := halfRound 13 vars.v0 vars.v1
  let (v2, v3) := halfRound 16 vars.v2 vars.v3
  let (v0, v3) := halfRound 21 (v0.rotateLeft 32) v3
  let (v2, v1) := halfRound 17 v2 v1
  ⟨v0, v1, v2.rotateLeft 32, v3⟩

/-- Eight characters as a word, the first one highest. -/
def letters (text : String) : BitVec 64 :=
  text.toList.foldl (fun word char => word <<< 8 ||| BitVec.ofNat 64 char.toNat) 0

/-- The state that a key starts with, with the mark for digests of 16 bytes. -/
def keyed (outlen : Nat) (key : Key) : Vars where
  v0 := key.k0 ^^^ letters "somepseu"
  v1 := key.k1 ^^^ letters "dorandom" ^^^ if outlen = 16 then 0xee#64 else 0#64
  v2 := key.k0 ^^^ letters "lygenera"
  v3 := key.k1 ^^^ letters "tedbytes"

/-- Compress a word into the state. -/
def compress (c : Nat) (vars : Vars) (word : BitVec 64) : Vars :=
  let vars := round^[c] { vars with v3 := vars.v3 ^^^ word }
  { vars with v0 := vars.v0 ^^^ word }

/-- The state after the words of a message, and the mark for the kind of output. -/
def state (c outlen : Nat) (key : Key) (message : List UInt8) : Vars :=
  let vars := (encode message).foldl (compress c) (keyed outlen key)
  { vars with v2 := vars.v2 ^^^ if outlen = 16 then 0xee#64 else 0xff#64 }

/-- The eight bytes that are read out of a state. -/
def readOut (vars : Vars) : List UInt8 :=
  toBytes (vars.v0 ^^^ vars.v1 ^^^ vars.v2 ^^^ vars.v3)

/-- The bytes of the digest: the second eight bytes are read out after further rounds. -/
def digest (c d outlen : Nat) (key : Key) (message : List UInt8) : List UInt8 :=
  let vars := round^[d] (state c outlen key message)
  if outlen = 8 then readOut vars
  else readOut vars ++ readOut (round^[d] { vars with v1 := vars.v1 ^^^ 0xdd#64 })

theorem length_readOut (vars : Vars) : (readOut vars).length = 8 :=
  length_toBytes _

theorem length_digest {outlen : Nat} (either : outlen = 8 ∨ outlen = 16) (c d : Nat) (key : Key)
    (message : List UInt8) : (digest c d outlen key message).length = outlen := by
  rcases either with rfl | rfl
  · exact length_readOut _
  · exact (List.length_append ..).trans (by rw [length_readOut, length_readOut])

/-! ## The macros and constants of the source -/

theorem rotl_eq_rotateLeft (x : BitVec 64) {b : Nat} (inside : b < 64) :
    rotl x b = x.rotateLeft b := by
  rw [BitVec.rotateLeft_def, Nat.mod_eq_of_lt inside, rotl]

theorem sipRound_eq_round : sipRound = round := by
  funext vars
  simp only [sipRound, round, halfRound, rotl_eq_rotateLeft _ (by decide : 13 < 64),
    rotl_eq_rotateLeft _ (by decide : 16 < 64), rotl_eq_rotateLeft _ (by decide : 17 < 64),
    rotl_eq_rotateLeft _ (by decide : 21 < 64), rotl_eq_rotateLeft _ (by decide : 32 < 64)]

theorem initial_eq_keyed (outlen : Nat) (key : Key) :
    initial key.k0 key.k1 outlen = keyed outlen key := by
  have first : letters "somepseu" = 0x736f6d6570736575#64 := by decide
  have second : letters "dorandom" = 0x646f72616e646f6d#64 := by decide
  have third : letters "lygenera" = 0x6c7967656e657261#64 := by decide
  have fourth : letters "tedbytes" = 0x7465646279746573#64 := by decide
  rw [initial, keyed, first, second, third, fourth, BitVec.xor_comm key.k0, BitVec.xor_comm key.k1,
    BitVec.xor_comm key.k0, BitVec.xor_comm key.k1]
  split
  · rfl
  · rw [BitVec.xor_zero]

theorem mix_eq_compress : mix = compress 2 := by
  funext vars word
  rw [mix, compress, cROUNDS, sipRound_eq_round]

/-! ## Permutations of the variables -/

/-- Rotating back by the rest of the word. -/
theorem rotl_rotl (x : BitVec 64) {b : Nat} (positive : 0 < b) (inside : b < 64) :
    rotl (rotl x b) (64 - b) = x := by
  apply BitVec.eq_of_getLsbD_eq
  intro bit within
  have back : 64 - (64 - b) = b := by omega
  simp only [rotl, back, BitVec.getLsbD_or, BitVec.getLsbD_shiftLeft,
    BitVec.getLsbD_ushiftRight]
  by_cases low : bit < 64 - b
  · have first : ¬b + bit < b := by omega
    have inner : b + bit < 64 := by omega
    have outside : 64 ≤ 64 - b + (b + bit) := by omega
    simp [low, inner, BitVec.getLsbD_of_ge x _ outside]
  · have first : bit - (64 - b) < b := by omega
    have restore : 64 - b + (bit - (64 - b)) = bit := by omega
    have outside : 64 ≤ 64 - b + (b + bit) := by omega
    simp [low, within, first, restore, BitVec.getLsbD_of_ge x _ outside]

/-- `SIPROUND` backwards, statement by statement. -/
def undoRound (vars : Vars) : Vars :=
  let v2 := rotl vars.v2 32
  let v1 := vars.v1 ^^^ v2
  let v1 := rotl v1 47
  let v2 := v2 - v1
  let v3 := vars.v3 ^^^ vars.v0
  let v3 := rotl v3 43
  let v0 := vars.v0 - v3
  let v3 := v3 ^^^ v2
  let v3 := rotl v3 48
  let v2 := v2 - v3
  let v0 := rotl v0 32
  let v1 := v1 ^^^ v0
  let v1 := rotl v1 51
  let v0 := v0 - v1
  ⟨v0, v1, v2, v3⟩

theorem xor_xor (x y : BitVec 64) : x ^^^ y ^^^ y = x := by
  rw [BitVec.xor_assoc, BitVec.xor_self, BitVec.xor_zero]

theorem undoRound_sipRound (vars : Vars) : undoRound (sipRound vars) = vars := by
  have r13 (x : BitVec 64) : rotl (rotl x 13) 51 = x := rotl_rotl x (by decide) (by decide)
  have r16 (x : BitVec 64) : rotl (rotl x 16) 48 = x := rotl_rotl x (by decide) (by decide)
  have r17 (x : BitVec 64) : rotl (rotl x 17) 47 = x := rotl_rotl x (by decide) (by decide)
  have r21 (x : BitVec 64) : rotl (rotl x 21) 43 = x := rotl_rotl x (by decide) (by decide)
  have r32 (x : BitVec 64) : rotl (rotl x 32) 32 = x := rotl_rotl x (by decide) (by decide)
  simp only [undoRound, sipRound, xor_xor, BitVec.add_sub_cancel, r13, r16, r17, r21, r32]

theorem sipRound_injective : Function.Injective sipRound :=
  Function.LeftInverse.injective undoRound_sipRound

theorem xor_injective (y : BitVec 64) : Function.Injective (· ^^^ y) :=
  Function.LeftInverse.injective (g := (· ^^^ y)) (xor_xor · y)

/-- Mixing in a word is a permutation of the variables. -/
theorem mix_injective (m : BitVec 64) : Function.Injective (mix · m) := by
  intro vars other same
  have rounds : sipRound^[cROUNDS] { vars with v3 := vars.v3 ^^^ m } =
      sipRound^[cROUNDS] { other with v3 := other.v3 ^^^ m } := by
    obtain ⟨first, second, third, fourth⟩ := Vars.ext_iff.mp same
    exact Vars.ext (xor_injective m first) second third fourth
  have start := sipRound_injective.iterate cROUNDS rounds
  obtain ⟨first, second, third, fourth⟩ := Vars.ext_iff.mp start
  exact Vars.ext first second third (xor_injective m fourth)

theorem foldl_mix_injective (blocks : List (BitVec 64)) :
    Function.Injective (blocks.foldl mix) := by
  induction blocks with
  | nil => exact Function.injective_id
  | cons block blocks ih => exact ih.comp (mix_injective block)

/-- The variables before the first block determine the key. -/
theorem initial_injective {outlen : Nat} {key other : Key}
    (same : initial key.k0 key.k1 outlen = initial other.k0 other.k1 outlen) : key = other := by
  obtain ⟨_, _, third, fourth⟩ := Vars.ext_iff.mp same
  have first : key.k0 = other.k0 := by
    simpa [initial, BitVec.xor_comm _ (Key.k0 _)] using third
  have second : key.k1 = other.k1 := by
    simpa [initial, BitVec.xor_comm _ (Key.k1 _)] using fourth
  exact Key.ext first second

/-- For one message, two keys never meet in one state. -/
theorem state_injective (outlen : Nat) (message : List UInt8) :
    Function.Injective (state 2 outlen · message) := by
  intro key other same
  obtain ⟨first, second, third, fourth⟩ := Vars.ext_iff.mp same
  have mixed : (encode message).foldl (compress 2) (keyed outlen key) =
      (encode message).foldl (compress 2) (keyed outlen other) :=
    Vars.ext first second (xor_injective _ third) fourth
  rw [← mix_eq_compress, ← initial_eq_keyed, ← initial_eq_keyed] at mixed
  exact initial_injective (foldl_mix_injective _ mixed)

end Cncpp.SipHash

import Cncpp.SipHash.Digest

/-!
# SipHash over memory computes the digest

The loop over whole blocks and the switch over the bytes that are left over mix in the words
of the filled-up message.  The call writes the digest at `out` and
changes nothing else; it reads the message and the key, and nothing else, since the digest is
a function of them.
-/

namespace Cncpp.SipHash

open Loop Machine.Endian Memory

/-! ## The message in memory -/

section Message

variable (memory : Nat → UInt8) (input inlen : Nat)

/-- The blocks before the bytes that are left over. -/
abbrev wholeBlocks : List (BitVec 64) :=
  words (window memory input (8 * (inlen / 8)))

theorem words_window_succ (count : Nat) :
    words (window memory input (8 * (count + 1))) =
      words (window memory input (8 * count)) ++ [u8to64le memory (input + 8 * count)] := by
  rw [Nat.mul_succ, window_add, words_append (length_window ..),
    words_eight (length_window ..), u8to64le_eq]

/-- The length in the highest byte. -/
theorem widen_shiftLeft (length : Nat) :
    widen (UInt8.ofNat length) <<< 56 = BitVec.ofNat 64 length <<< 56 := by
  have byte : (UInt8.ofNat length).toBitVec = BitVec.ofNat 8 length := rfl
  apply BitVec.eq_of_getLsbD_eq
  intro bit inside
  rw [BitVec.getLsbD_shiftLeft, BitVec.getLsbD_shiftLeft, widen, BitVec.getLsbD_setWidth, byte,
    BitVec.getLsbD_ofNat, BitVec.getLsbD_ofNat]
  by_cases low : bit < 56
  · simp [low]
  · have inByte : bit - 56 < 8 := by omega
    have inWord : bit - 56 < 64 := by omega
    simp [inByte, inWord]

/-- The last word: the bytes that are left over below the length. -/
theorem encode_window :
    encode (window memory input inlen) = wholeBlocks memory input inlen ++
      [switchLeft memory (input + 8 * (inlen / 8)) (inlen % 8)
        (BitVec.ofNat 64 inlen <<< 56)] := by
  have padded : pad (window memory input inlen) = window memory input (8 * (inlen / 8)) ++
      (window memory (input + 8 * (inlen / 8)) (inlen % 8) ++
        (List.replicate (7 - inlen % 8) 0 ++ [UInt8.ofNat inlen])) := by
    rw [pad, length_window, ← List.append_assoc (window memory input (8 * (inlen / 8))),
      ← window_add, Nat.div_add_mod]
  have length : (window memory (input + 8 * (inlen / 8)) (inlen % 8) ++
      (List.replicate (7 - inlen % 8) 0 ++ [UInt8.ofNat inlen])).length = 8 := by
    simp only [List.length_append, length_window, List.length_replicate, List.length_singleton]
    omega
  have shift : 8 * (7 - inlen % 8) + 8 * (inlen % 8) = 56 := by omega
  have zeros : (0 : BitVec 64) ||| widen (UInt8.ofNat inlen) <<< (8 * (7 - inlen % 8)) =
      widen (UInt8.ofNat inlen) <<< (8 * (7 - inlen % 8)) := BitVec.zero_or
  rw [encode, padded, words_append (length_window ..), words_eight length, ofBytes_append,
    ofBytes_append, ofBytes_replicate_zero, ofBytes_singleton, length_window,
    List.length_replicate, zeros, ← BitVec.shiftLeft_add, shift, widen_shiftLeft, switchLeft_eq,
    BitVec.or_comm]

end Message

/-! ## The loop over the blocks -/

/-- Before a pass: some of the whole blocks have been mixed in. -/
def SomeMixed (memory : Nat → UInt8) (input inlen : Nat) (vars : Vars)
    (current : Nat × Vars) : Prop :=
  ∃ count ≤ inlen / 8, current =
    (input + 8 * count, (words (window memory input (8 * count))).foldl mix vars)

theorem blockPass_meets (memory : Nat → UInt8) (input inlen : Nat) (vars : Vars)
    (current : Nat × Vars) (mixed : SomeMixed memory input inlen vars current) :
    (blockPass memory (input + 8 * (inlen / 8)) current).Meets
      (fun next => SomeMixed memory input inlen vars next ∧
        (input + 8 * (inlen / 8) - next.1) / 8 < (input + 8 * (inlen / 8) - current.1) / 8)
      (· = (input + 8 * (inlen / 8), (wholeBlocks memory input inlen).foldl mix vars)) := by
  obtain ⟨count, within, rfl⟩ := mixed
  by_cases done : count = inlen / 8
  · subst done
    simp [blockPass]
  · have more : ¬input + 8 * count = input + 8 * (inlen / 8) := by omega
    simp only [blockPass, if_neg more, Pass.meets_again]
    refine ⟨⟨count + 1, by omega, ?_⟩, by omega⟩
    rw [words_window_succ, List.foldl_append]
    rfl

/-- The loop stops behind the whole blocks with all of them mixed in. -/
theorem run_blockPass {fuel inlen : Nat} (memory : Nat → UInt8) (input : Nat) (vars : Vars)
    (enough : inlen / 8 < fuel) :
    run (blockPass memory (input + 8 * (inlen / 8))) fuel (input, vars) =
      some (input + 8 * (inlen / 8), (wholeBlocks memory input inlen).foldl mix vars) := by
  have start : SomeMixed memory input inlen vars (input, vars) := ⟨0, Nat.zero_le _, rfl⟩
  have passes : (input + 8 * (inlen / 8) - input) / 8 < fuel := by omega
  obtain ⟨result, returned, reached⟩ :=
    run_total (fun current => (input + 8 * (inlen / 8) - current.1) / 8)
      (blockPass_meets memory input inlen vars) start passes
  rw [returned, reached]

/-! ## The call -/

/-- The variables that the call reaches are those of the message and the key in memory. -/
theorem absorbed_eq {fuel : Nat} (memory : Nat → UInt8) (input : Nat) {inlen : Nat}
    (k outlen : Nat) (enough : inlen / 8 < fuel) :
    absorbed fuel memory input inlen k outlen =
      some (state 2 outlen (Key.at memory k) (window memory input inlen)) := by
  have last : input + inlen - inlen % 8 = input + 8 * (inlen / 8) := by omega
  have left : inlen &&& 7 = inlen % 8 := Nat.and_two_pow_sub_one_eq_mod inlen 3
  have key : Key.at memory k = ⟨u8to64le memory k, u8to64le memory (k + 8)⟩ := by
    rw [Key.at, u8to64le_eq, u8to64le_eq]
  rw [absorbed, last, left, run_blockPass memory input _ enough, state, encode_window,
    List.foldl_append, ← initial_eq_keyed, ← mix_eq_compress, key]
  by_cases wide : outlen = 16
  · simp [wide]
  · simp [wide]

/-- The call computes the SipHash-2-4 digest: whatever memory holds and wherever the key, the
message and the output stand, even if they overlap, the bytes at `out` are the digest of the
message under the key, and no other byte has changed. -/
theorem siphash_digest {fuel inlen outlen : Nat} (memory : Nat → UInt8) (input k out : Nat)
    (enough : inlen / 8 < fuel) (either : outlen = 8 ∨ outlen = 16) :
    siphash fuel memory input inlen k out outlen =
      some (write memory out
        (digest 2 4 outlen (Key.at memory k) (window memory input inlen))) := by
  rw [siphash, if_pos either, absorbed_eq memory input k outlen enough, sipRound_eq_round,
    dROUNDS]
  rcases either with rfl | rfl
  · simp only [Option.bind_eq_bind, Option.bind_some, if_pos, u64to8le_eq]
    rfl
  · let vars := round^[4] (state 2 16 (Key.at memory k) (window memory input inlen))
    have second := write_write_append memory out (readOut vars)
      (readOut (round^[4] { vars with v1 := vars.v1 ^^^ 0xdd#64 }))
    simp only [Option.bind_eq_bind, Option.bind_some, u64to8le_eq]
    exact congrArg some second

/-- The key and the message are the bytes 0, 1, 2 and so on. -/
theorem siphash_counting : siphash 2 UInt8.ofNat 0 15 0 100 8 =
    some (write UInt8.ofNat 100 [229, 69, 190, 73, 97, 202, 41, 161]) := by
  have bytes : digest 2 4 8 (Key.at UInt8.ofNat 0) (window UInt8.ofNat 0 15) =
      [229, 69, 190, 73, 97, 202, 41, 161] := by
    decide +kernel
  rw [siphash_digest UInt8.ofNat 0 0 100 (by decide) (Or.inl rfl), bytes]

/-- The 16 bytes of a key are the bytes of its two words. -/
theorem window_key (memory : Nat → UInt8) (k : Nat) :
    window memory k 16 =
      toBytes (Key.at memory k).k0 ++ toBytes (Key.at memory k).k1 := by
  rw [Key.at, toBytes_ofBytes (length_window ..), toBytes_ofBytes (length_window ..),
    ← window_add]

/-- A round and a block act on the variables as injective maps, and two calls that hash one
message under two keys, to digests of one length, never reach the same variables. -/
theorem absorbed_separates {fuel inlen : Nat} {memory other : Nat → UInt8}
    {input input' k k' : Nat} (outlen : Nat) (enough : inlen / 8 < fuel)
    (message : window memory input inlen = window other input' inlen)
    (different : window memory k 16 ≠ window other k' 16) :
    Function.Injective sipRound ∧ (∀ m, Function.Injective (mix · m)) ∧
      absorbed fuel memory input inlen k outlen ≠
        absorbed fuel other input' inlen k' outlen := by
  refine ⟨sipRound_injective, mix_injective, fun same => ?_⟩
  rw [absorbed_eq memory input k outlen enough, absorbed_eq other input' k' outlen enough,
    message] at same
  have key : Key.at memory k = Key.at other k' :=
    state_injective outlen _ (Option.some.inj same)
  exact different (by rw [window_key, window_key, key])

/-- The bytes 0, 1, 2 and so on as a message, under two keys that overlap. -/
theorem counting_separated : absorbed 2 UInt8.ofNat 0 15 0 8 ≠ absorbed 2 UInt8.ofNat 0 15 1 8 :=
  (absorbed_separates 8 (by decide) rfl (by decide)).2.2

end Cncpp.SipHash

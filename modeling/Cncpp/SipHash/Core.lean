import Cncpp.Loop.Bounded
import Cncpp.Machine.Endian
import Cncpp.Memory.Window
import Mathlib.Data.BitVec

/-!
# SipHash over memory

`siphash` reads `inlen` bytes at `in` and a key of 16 bytes at `k`, and writes 8 or
16 bytes at `out`.  Addresses are natural numbers and memory is a function from
addresses to bytes.  The four 64-bit variables are a record; every macro of the source is
a function on it, with the arithmetic of 64-bit words.
-/

namespace Cncpp.SipHash

open Loop Machine.Endian Memory

/-- `cROUNDS` -/
def cROUNDS : Nat :=
  2

/-- `dROUNDS` -/
def dROUNDS : Nat :=
  4

/-- The variables `v0`, `v1`, `v2` and `v3`. -/
@[ext]
structure Vars where
  v0 : BitVec 64
  v1 : BitVec 64
  v2 : BitVec 64
  v3 : BitVec 64
  deriving DecidableEq, Repr

/-- `ROTL(x, b)` -/
def rotl (x : BitVec 64) (b : Nat) : BitVec 64 :=
  (x <<< b) ||| (x >>> (64 - b))

/-- `SIPROUND`, statement by statement. -/
def sipRound (vars : Vars) : Vars :=
  let v0 := vars.v0 + vars.v1
  let v1 := rotl vars.v1 13
  let v1 := v1 ^^^ v0
  let v0 := rotl v0 32
  let v2 := vars.v2 + vars.v3
  let v3 := rotl vars.v3 16
  let v3 := v3 ^^^ v2
  let v0 := v0 + v3
  let v3 := rotl v3 21
  let v3 := v3 ^^^ v0
  let v2 := v2 + v1
  let v1 := rotl v1 17
  let v1 := v1 ^^^ v2
  let v2 := rotl v2 32
  ⟨v0, v1, v2, v3⟩

/-- `U8TO64_LE(p)` -/
def u8to64le (memory : Nat → UInt8) (p : Nat) : BitVec 64 :=
  widen (memory p) ||| widen (memory (p + 1)) <<< 8 ||| widen (memory (p + 2)) <<< 16 |||
    widen (memory (p + 3)) <<< 24 ||| widen (memory (p + 4)) <<< 32 |||
    widen (memory (p + 5)) <<< 40 ||| widen (memory (p + 6)) <<< 48 |||
    widen (memory (p + 7)) <<< 56

/-- Conversion of a 32-bit word to `uint8_t`. -/
def narrow (v : BitVec 32) : UInt8 :=
  UInt8.ofBitVec (v.setWidth 8)

/-- `U32TO8_LE(p, v)` -/
def u32to8le (memory : Nat → UInt8) (p : Nat) (v : BitVec 32) : Nat → UInt8 :=
  write memory p [narrow v, narrow (v >>> 8), narrow (v >>> 16), narrow (v >>> 24)]

/-- `U64TO8_LE(p, v)` -/
def u64to8le (memory : Nat → UInt8) (p : Nat) (v : BitVec 64) : Nat → UInt8 :=
  u32to8le (u32to8le memory p (v.setWidth 32)) (p + 4) ((v >>> 32).setWidth 32)

/-- The four variables before the first block. -/
def initial (k0 k1 : BitVec 64) (outlen : Nat) : Vars :=
  let v0 : BitVec 64 := 0x736f6d6570736575#64
  let v1 : BitVec 64 := 0x646f72616e646f6d#64
  let v2 : BitVec 64 := 0x6c7967656e657261#64
  let v3 : BitVec 64 := 0x7465646279746573#64
  let v3 := v3 ^^^ k1
  let v2 := v2 ^^^ k0
  let v1 := v1 ^^^ k1
  let v0 := v0 ^^^ k0
  let v1 := if outlen = 16 then v1 ^^^ 0xee#64 else v1
  ⟨v0, v1, v2, v3⟩

/-- What the loop and the end of the message both do with a word `m`. -/
def mix (vars : Vars) (m : BitVec 64) : Vars :=
  let vars := { vars with v3 := vars.v3 ^^^ m }
  let vars := sipRound^[cROUNDS] vars
  { vars with v0 := vars.v0 ^^^ m }

/-- One pass of `for (; ni != end; ni += 8)`. -/
def blockPass (memory : Nat → UInt8) (last : Nat) (state : Nat × Vars) :
    Pass (Nat × Vars) (Nat × Vars) :=
  if state.1 = last then .leave state
  else .again (state.1 + 8, mix state.2 (u8to64le memory state.1))

/-- `switch (left)`: every case falls through to the one below it, and `case 0` breaks. -/
def switchLeft (memory : Nat → UInt8) (ni : Nat) : Nat → BitVec 64 → BitVec 64
  | 0, b => b
  | left + 1, b => switchLeft memory ni left (b ||| widen (memory (ni + left)) <<< (8 * left))

/-- The four variables when the whole message has been mixed in, as the last `TRACE` but
`dROUNDS` shows them.  The bound is on the passes of the loop over the blocks. -/
def absorbed (fuel : Nat) (memory : Nat → UInt8) (input inlen k outlen : Nat) :
    Option Vars := do
  let k0 := u8to64le memory k
  let k1 := u8to64le memory (k + 8)
  let last := input + inlen - inlen % 8
  let left := inlen &&& 7
  let b := BitVec.ofNat 64 inlen <<< 56
  let (ni, vars) ← run (blockPass memory last) fuel (input, initial k0 k1 outlen)
  let b := switchLeft memory ni left b
  let vars := mix vars b
  if outlen = 16 then
    pure { vars with v2 := vars.v2 ^^^ 0xee#64 }
  else
    pure { vars with v2 := vars.v2 ^^^ 0xff#64 }

/-- `v0 ^ v1 ^ v2 ^ v3` -/
def output (vars : Vars) : BitVec 64 :=
  vars.v0 ^^^ vars.v1 ^^^ vars.v2 ^^^ vars.v3

/-- `siphash`: the memory after the call.  There is none when the assertion fails or the
bound on the passes is reached. -/
def siphash (fuel : Nat) (memory : Nat → UInt8) (input inlen k out outlen : Nat) :
    Option (Nat → UInt8) :=
  if outlen = 8 ∨ outlen = 16 then do
    let vars ← absorbed fuel memory input inlen k outlen
    let vars := sipRound^[dROUNDS] vars
    let memory := u64to8le memory out (output vars)
    if outlen = 8 then
      pure memory
    else
      let vars := { vars with v1 := vars.v1 ^^^ 0xdd#64 }
      let vars := sipRound^[dROUNDS] vars
      pure (u64to8le memory (out + 8) (output vars))
  else
    none

/-! ## Words in memory -/

theorem u8to64le_eq (memory : Nat → UInt8) (p : Nat) :
    u8to64le memory p = ofBytes (window memory p 8) := by
  simp only [u8to64le, window, List.range', List.map_cons, List.map_nil, ofBytes,
    BitVec.shiftLeft_or_distrib, ← BitVec.shiftLeft_add, BitVec.or_assoc]
  simp [Nat.add_assoc]

/-- The bytes of the low and of the high half of a word are the bytes of the word. -/
theorem narrow_half (v : BitVec 64) (half : Nat) {shift : Nat} (inside : shift + 8 ≤ 32) :
    narrow ((v >>> half).setWidth 32 >>> shift) =
      UInt8.ofBitVec ((v >>> (half + shift)).setWidth 8) := by
  apply UInt8.toBitVec_inj.mp
  apply BitVec.eq_of_getLsbD_eq
  intro bit low
  have within : shift + bit < 32 := by omega
  simp [narrow, low, within, Nat.add_assoc]

theorem u64to8le_eq (memory : Nat → UInt8) (p : Nat) (v : BitVec 64) :
    u64to8le memory p v = write memory p (toBytes v) := by
  have low (shift : Nat) (inside : shift + 8 ≤ 32) :
      narrow (v.setWidth 32 >>> shift) = UInt8.ofBitVec ((v >>> shift).setWidth 8) := by
    simpa using narrow_half v 0 inside
  have first := low 0 (by decide)
  have high (shift : Nat) (inside : shift + 8 ≤ 32) := narrow_half v 32 inside
  have fifth := high 0 (by decide)
  simp only [BitVec.ushiftRight_zero, Nat.add_zero] at first fifth
  rw [u64to8le, u32to8le, u32to8le, first, low 8 (by decide), low 16 (by decide),
    low 24 (by decide), fifth, high 8 (by decide), high 16 (by decide), high 24 (by decide)]
  exact write_write_append memory p _ _

/-- The bytes that are left over stand below what `b` already holds. -/
theorem switchLeft_eq (memory : Nat → UInt8) (ni left : Nat) (b : BitVec 64) :
    switchLeft memory ni left b = b ||| ofBytes (window memory ni left) := by
  induction left generalizing b with
  | zero => simp [switchLeft, window, ofBytes]
  | succ left ih =>
      have single : window memory (ni + left) 1 = [memory (ni + left)] := rfl
      rw [switchLeft, ih, window_add, ofBytes_append, length_window, single, ofBytes_singleton,
        BitVec.or_assoc, BitVec.or_comm (widen _ <<< _)]

end Cncpp.SipHash

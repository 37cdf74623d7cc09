import Mathlib.Algebra.GroupWithZero.Nat
import Mathlib.Data.List.Basic

/-!
# Fixed-width arithmetic

Offsets and sizes of the buffers are `uint32_t`.  They are modelled by natural
numbers, and every operation that can leave the range wraps explicitly.  The
two fields of a message header are `UInt16` values whose object representation
is little-endian.  The contents of a `std::string` are a list with one character
for each byte.
-/

namespace Cncpp.Machine

/-- The contents of a `std::string`. -/
abbrev Text := List Char

/-- Conversion to `uint16_t`. -/
def uint16 (value : Nat) : Nat :=
  value % 2 ^ 16

/-- Conversion to `uint32_t`. -/
def uint32 (value : Nat) : Nat :=
  value % 2 ^ 32

/-- Conversion to `uint64_t`. -/
def uint64 (value : Nat) : Nat :=
  value % 2 ^ 64

/-- Conversion of an unsigned value to `int32_t`. -/
def int32 (value : Nat) : Int :=
  Int.bmod value (2 ^ 32)

/-- Conversion of a signed value to `int32_t`. -/
def toInt32 (value : Int) : Int :=
  Int.bmod value (2 ^ 32)

/-- Conversion of a signed value to `uint32_t`. -/
def toUint32 (value : Int) : Nat :=
  (value % (2 ^ 32 : Nat)).toNat

theorem uint16_of_lt {value : Nat} (fits : value < 2 ^ 16) : uint16 value = value :=
  Nat.mod_eq_of_lt fits

theorem uint32_lt (value : Nat) : uint32 value < 2 ^ 32 :=
  Nat.mod_lt _ (by decide)

theorem uint32_of_lt {value : Nat} (fits : value < 2 ^ 32) : uint32 value = value :=
  Nat.mod_eq_of_lt fits

theorem int32_of_lt {value : Nat} (fits : value < 2 ^ 31) : int32 value = value := by
  apply Int.bmod_eq_of_le
  · omega
  · omega

theorem uint32_le (value : Nat) : uint32 value ≤ value :=
  Nat.mod_le _ _

theorem toUint32_eq (value : Int) : (toUint32 value : Int) = value % 4294967296 := by
  have positive : 0 ≤ value % (2 ^ 32 : Nat) := Int.emod_nonneg value (by decide)
  rw [toUint32, Int.toNat_of_nonneg positive]
  rfl

/-- A conversion to `int32_t` in between does not change the value. -/
theorem toUint32_toInt32 (value : Int) : toUint32 (toInt32 value) = toUint32 value := by
  rw [toUint32, toInt32, Int.bmod_emod, toUint32]

/-- Reducing to 64 bits first does not change the low 32 bits. -/
theorem uint32_uint64 (value : Nat) : uint32 (uint64 value) = uint32 value :=
  Nat.mod_mod_of_dvd value (by decide)

theorem uint32_add_uint32 (left right : Nat) :
    uint32 (uint32 left + right) = uint32 (left + right) := by
  simp [uint32, Nat.mod_add_mod]

theorem uint64_add_uint64 (left right : Nat) :
    uint64 (uint64 left + right) = uint64 (left + right) := by
  simp [uint64, Nat.mod_add_mod]

/-- The object representation of a `uint16_t`, low byte first. -/
def uint16Bytes (value : UInt16) : List UInt8 :=
  [UInt8.ofNat (value.toNat % 256), UInt8.ofNat (value.toNat / 256)]

/-- The `uint16_t` whose object representation is `low`, `high`. -/
def uint16OfBytes (low high : UInt8) : UInt16 :=
  UInt16.ofNat (low.toNat + 256 * high.toNat)

@[simp]
theorem length_uint16Bytes (value : UInt16) : (uint16Bytes value).length = 2 :=
  rfl

@[simp]
theorem uint16OfBytes_bytes (value : UInt16) :
    uint16OfBytes (UInt8.ofNat (value.toNat % 256)) (UInt8.ofNat (value.toNat / 256)) =
      value := by
  apply UInt16.toNat_inj.mp
  have bound := value.toNat_lt
  have low : value.toNat % 256 % 256 = value.toNat % 256 := Nat.mod_mod _ _
  have high : value.toNat / 256 % 256 = value.toNat / 256 :=
    Nat.mod_eq_of_lt (by omega)
  simp only [uint16OfBytes, UInt16.toNat_ofNat', UInt8.toNat_ofNat', Nat.reducePow, low, high]
  omega

@[simp]
theorem uint16Bytes_ofBytes (low high : UInt8) :
    uint16Bytes (uint16OfBytes low high) = [low, high] := by
  have lowBound := low.toNat_lt
  have highBound := high.toNat_lt
  have value : (uint16OfBytes low high).toNat = low.toNat + 256 * high.toNat := by
    simp only [uint16OfBytes, UInt16.toNat_ofNat']
    omega
  have first : (low.toNat + 256 * high.toNat) % 256 = low.toNat := by omega
  have second : (low.toNat + 256 * high.toNat) / 256 = high.toNat := by omega
  simp [uint16Bytes, value, first, second]

end Cncpp.Machine

import Mathlib

/-!
# Little-endian integers

A fixed-width unsigned integer written byte by byte, least significant byte
first, and read back by shifting and or-ing the bytes.
-/

namespace HydraRT.Lib

/-- `for (i < width) push_back((value >> (8 * i)) & 0xFF)`. -/
def toBytes (width value : Nat) : List UInt8 :=
  (List.range width).map fun index =>
    UInt8.ofNat ((value >>> (8 * index)) &&& 0xFF)

/-- `value |= byte << (8 * index)` over the bytes in order. -/
def orBytes : (index value : Nat) → List UInt8 → Nat
  | _, value, [] => value
  | index, value, byte :: rest =>
      orBytes (index + 1) (value ||| (byte.toNat <<< (8 * index))) rest

def fromBytes (bytes : List UInt8) : Nat :=
  orBytes 0 0 bytes

@[simp]
theorem length_toBytes (width value : Nat) :
    (toBytes width value).length = width := by
  simp [toBytes]

theorem toBytes_succ (width value : Nat) :
    toBytes (width + 1) value =
      UInt8.ofNat value :: toBytes width (value / 256) := by
  simp only [toBytes, List.range_succ_eq_map, List.map_cons, List.map_map]
  congr 1
  · apply UInt8.toNat_inj.mp
    have masked : value &&& 255 = value % 2 ^ 8 :=
      Nat.and_two_pow_sub_one_eq_mod value 8
    simp [masked]
  · apply List.map_congr_left
    intro index _
    have shifted : value >>> (8 * (index + 1)) =
        (value / 256) >>> (8 * index) := by
      rw [Nat.mul_add, Nat.mul_one, Nat.add_comm, Nat.shiftRight_add]
      rw [Nat.shiftRight_eq_div_pow value 8]
    simp [shifted]

/-- Writing keeps the low bytes only. -/
theorem toBytes_mod (width value : Nat) :
    toBytes width (value % 256 ^ width) = toBytes width value := by
  induction width generalizing value with
  | zero =>
      rfl
  | succ width inductionHypothesis =>
      have split : value % 256 ^ (width + 1) =
          value % 256 + 256 * (value / 256 % 256 ^ width) := by
        rw [pow_succ', Nat.mod_mul]
      have low : UInt8.ofNat (value % 256 ^ (width + 1)) =
          UInt8.ofNat value := by
        apply UInt8.toNat_inj.mp
        simp only [UInt8.toNat_ofNat', split]
        omega
      have high : value % 256 ^ (width + 1) / 256 =
          value / 256 % 256 ^ width := by
        rw [split]
        omega
      rw [toBytes_succ, toBytes_succ, low, high, inductionHypothesis]

/-- Shifted bytes above the bits collected so far add up. -/
theorem orBytes_eq
    (bytes : List UInt8) (index value : Nat)
    (bound : value < 2 ^ (8 * index)) :
    orBytes index value bytes =
      value + 2 ^ (8 * index) *
        Nat.ofDigits 256 (bytes.map UInt8.toNat) := by
  induction bytes generalizing index value with
  | nil =>
      simp [orBytes]
  | cons byte rest inductionHypothesis =>
      have joined :
          value ||| (byte.toNat <<< (8 * index)) =
            2 ^ (8 * index) * byte.toNat + value := by
        rw [Nat.two_pow_add_eq_or_of_lt bound, Nat.or_comm,
          Nat.shiftLeft_eq, Nat.mul_comm]
      have byteBound : byte.toNat < 256 := byte.toNat_lt
      have wider : 2 ^ (8 * (index + 1)) = 2 ^ (8 * index) * 256 := by
        rw [Nat.mul_add, pow_add]
        norm_num
      have nextBound :
          value ||| (byte.toNat <<< (8 * index)) <
            2 ^ (8 * (index + 1)) := by
        rw [joined, wider]
        nlinarith
      rw [orBytes, inductionHypothesis _ _ nextBound, joined, wider,
        List.map_cons, Nat.ofDigits_cons]
      ring

theorem fromBytes_eq_ofDigits (bytes : List UInt8) :
    fromBytes bytes = Nat.ofDigits 256 (bytes.map UInt8.toNat) := by
  simpa [fromBytes] using orBytes_eq bytes 0 0 (by simp)

/-- Reading back a value that fits its width. -/
theorem fromBytes_toBytes
    {width value : Nat} (fits : value < 256 ^ width) :
    fromBytes (toBytes width value) = value := by
  rw [fromBytes_eq_ofDigits]
  induction width generalizing value with
  | zero =>
      have : value = 0 := by simpa using fits
      simp [toBytes, this]
  | succ width inductionHypothesis =>
      have quotientFits : value / 256 < 256 ^ width := by
        rw [pow_succ] at fits
        exact Nat.div_lt_of_lt_mul (by rwa [Nat.mul_comm])
      rw [toBytes_succ, List.map_cons, Nat.ofDigits_cons,
        inductionHypothesis quotientFits]
      simp only [UInt8.toNat_ofNat']
      exact Nat.mod_add_div value 256

theorem fromBytes_lt (bytes : List UInt8) :
    fromBytes bytes < 256 ^ bytes.length := by
  rw [fromBytes_eq_ofDigits, ← List.length_map UInt8.toNat]
  apply Nat.ofDigits_lt_base_pow_length (by decide)
  intro digit member
  obtain ⟨byte, _, rfl⟩ := List.mem_map.mp member
  exact byte.toNat_lt

/-- Every block of bytes is the encoding of the value it reads as. -/
theorem toBytes_fromBytes (bytes : List UInt8) :
    toBytes bytes.length (fromBytes bytes) = bytes := by
  rw [fromBytes_eq_ofDigits]
  induction bytes with
  | nil =>
      rfl
  | cons byte rest inductionHypothesis =>
      have small : byte.toNat < 256 := byte.toNat_lt
      have low : UInt8.ofNat (byte.toNat +
          256 * Nat.ofDigits 256 (rest.map UInt8.toNat)) = byte := by
        apply UInt8.toNat_inj.mp
        simp only [UInt8.toNat_ofNat']
        omega
      have high : (byte.toNat +
          256 * Nat.ofDigits 256 (rest.map UInt8.toNat)) / 256 =
            Nat.ofDigits 256 (rest.map UInt8.toNat) := by
        omega
      rw [List.map_cons, Nat.ofDigits_cons, List.length_cons, toBytes_succ]
      rw [low, high, inductionHypothesis]

end HydraRT.Lib

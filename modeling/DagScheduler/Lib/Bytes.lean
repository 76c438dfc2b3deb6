import Mathlib

/-!
# Integers as bytes

Little-endian words of any width, and `Int32` and `Int64` as words of four and
eight bytes.  Every word of the right length is the encoding of exactly one
number, so each direction undoes the other.
-/

namespace DagScheduler.Lib

/-- A string of bytes. -/
abbrev Bytes := List UInt8

/-- The lowest `w` bytes of a number, the lowest one first. -/
def toLE : Nat → Nat → Bytes
  | 0, _ => []
  | w + 1, n => UInt8.ofNat n :: toLE w (n / 256)

/-- The number that a word stands for. -/
def ofLE : Bytes → Nat
  | [] => 0
  | b :: bs => b.toNat + 256 * ofLE bs

@[simp] theorem length_toLE (w n : Nat) : (toLE w n).length = w := by
  induction w generalizing n with
  | zero => rfl
  | succ w ih => rw [toLE, List.length_cons, ih]

theorem ofLE_toLE (w n : Nat) : ofLE (toLE w n) = n % 256 ^ w := by
  induction w generalizing n with
  | zero => simp [toLE, ofLE, Nat.mod_one]
  | succ w ih =>
    have hsplit : n % 256 ^ (w + 1) = n % 256 + 256 * (n / 256 % 256 ^ w) := by
      rw [Nat.pow_succ', Nat.mod_mul]
    rw [toLE, ofLE, ih, UInt8.toNat_ofNat', hsplit]

theorem toLE_ofLE (bs : Bytes) : toLE bs.length (ofLE bs) = bs := by
  induction bs with
  | nil => rfl
  | cons b bs ih =>
    have hb := b.toNat_lt
    have hhead : UInt8.ofNat (ofLE (b :: bs)) = b := by
      apply UInt8.toNat_inj.mp
      rw [UInt8.toNat_ofNat', ofLE]
      omega
    have htail : ofLE (b :: bs) / 256 = ofLE bs := by
      rw [ofLE]
      omega
    rw [List.length_cons, toLE, hhead, htail, ih]

theorem ofLE_lt (bs : Bytes) : ofLE bs < 256 ^ bs.length := by
  induction bs with
  | nil => simp [ofLE]
  | cons b bs ih =>
    have hb := b.toNat_lt
    rw [ofLE, List.length_cons, Nat.pow_succ']
    omega

/-! ## `Int32` -/

/-- The four bytes of an `Int32`. -/
def ofInt32 (x : Int32) : Bytes := toLE 4 x.toUInt32.toNat

/-- The `Int32` of four bytes. -/
def toInt32 (bs : Bytes) : Int32 := (UInt32.ofNat (ofLE bs)).toInt32

@[simp] theorem length_ofInt32 (x : Int32) : (ofInt32 x).length = 4 := length_toLE _ _

@[simp] theorem toInt32_ofInt32 (x : Int32) : toInt32 (ofInt32 x) = x := by
  have hlt : x.toUInt32.toNat < 256 ^ 4 := x.toUInt32.toNat_lt
  rw [toInt32, ofInt32, ofLE_toLE, Nat.mod_eq_of_lt hlt, UInt32.ofNat_toNat]
  rfl

theorem ofInt32_toInt32 {bs : Bytes} (h : bs.length = 4) : ofInt32 (toInt32 bs) = bs := by
  have hlt := ofLE_lt bs
  rw [h] at hlt
  have hval : (UInt32.ofNat (ofLE bs)).toNat = ofLE bs := UInt32.toNat_ofNat_of_lt' hlt
  rw [ofInt32, toInt32, UInt32.toUInt32_toInt32, hval, ← h, toLE_ofLE]

/-! ## `Int64` -/

/-- The eight bytes of an `Int64`. -/
def ofInt64 (x : Int64) : Bytes := toLE 8 x.toUInt64.toNat

/-- The `Int64` of eight bytes. -/
def toInt64 (bs : Bytes) : Int64 := (UInt64.ofNat (ofLE bs)).toInt64

@[simp] theorem length_ofInt64 (x : Int64) : (ofInt64 x).length = 8 := length_toLE _ _

@[simp] theorem toInt64_ofInt64 (x : Int64) : toInt64 (ofInt64 x) = x := by
  have hlt : x.toUInt64.toNat < 256 ^ 8 := x.toUInt64.toNat_lt
  rw [toInt64, ofInt64, ofLE_toLE, Nat.mod_eq_of_lt hlt, UInt64.ofNat_toNat]
  rfl

theorem ofInt64_toInt64 {bs : Bytes} (h : bs.length = 8) : ofInt64 (toInt64 bs) = bs := by
  have hlt := ofLE_lt bs
  rw [h] at hlt
  have hval : (UInt64.ofNat (ofLE bs)).toNat = ofLE bs := UInt64.toNat_ofNat_of_lt' hlt
  rw [ofInt64, toInt64, UInt64.toUInt64_toInt64, hval, ← h, toLE_ofLE]

end DagScheduler.Lib

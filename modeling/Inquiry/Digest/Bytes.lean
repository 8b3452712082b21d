/-!
# Numbers as bytes

A number written with a fixed count of bytes, in either order, and bytes written
with hexadecimal digits.

* `toNat_littleEndian`: the bytes of a number that they can hold determine it.
-/

namespace Inquiry.Bytes

/-- The bytes of `n`, least significant first. -/
def littleEndian : (count : Nat) → (n : Nat) → List UInt8
  | 0, _ => []
  | count + 1, n => UInt8.ofNat n :: littleEndian count (n / 256)

/-- The bytes of `n`, most significant first. -/
def bigEndian (count n : Nat) : List UInt8 :=
  (littleEndian count n).reverse

/-- The number that bytes stand for, least significant first. -/
def toNat : List UInt8 → Nat
  | [] => 0
  | b :: bs => b.toNat + 256 * toNat bs

theorem toNat_littleEndian {count n : Nat} (h : n < Nat.pow 256 count) :
    toNat (littleEndian count n) = n := by
  induction count generalizing n with
  | zero => exact (Nat.lt_one_iff.1 h).symm
  | succ count ih =>
    have : n / 256 < Nat.pow 256 count := Nat.div_lt_of_lt_mul (Nat.mul_comm _ 256 ▸ h)
    rw [littleEndian, toNat, ih this, UInt8.toNat_ofNat']
    omega

@[simp]
theorem length_littleEndian (count n : Nat) : (littleEndian count n).length = count := by
  induction count generalizing n with
  | zero => rfl
  | succ count ih => rw [littleEndian, List.length_cons, ih]

/-- A byte in two hexadecimal digits. -/
def hex (b : UInt8) : List Char :=
  [Nat.digitChar (b.toNat / 16), Nat.digitChar (b.toNat % 16)]

end Inquiry.Bytes

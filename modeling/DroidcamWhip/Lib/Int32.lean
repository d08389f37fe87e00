import Mathlib.Algebra.Group.Nat.Defs

/-!
32-bit `int`s that hold a natural number, and what arithmetic makes of them as
long as it does not overflow.
-/

namespace Int32

/-- The value of `a` is `n`. -/
def Holds (a : Int32) (n : Nat) : Prop := a.toInt = n

instance (a : Int32) (n : Nat) : Decidable (a.Holds n) := inferInstanceAs (Decidable (a.toInt = n))

namespace Holds

variable {a b : Int32} {m n : Nat}

theorem mul (ha : a.Holds m) (hb : b.Holds n) (h : m * n < 2 ^ 31) :
    (a * b).Holds (m * n) := by
  unfold Holds
  rw [toInt_mul, ha, hb, ← Int.natCast_mul]
  exact Int.bmod_eq_of_le (by omega) (by omega)

theorem div (ha : a.Holds m) (hb : b.Holds n) : (a / b).Holds (m / n) := by
  unfold Holds
  have hb' : b ≠ -1 := by
    rintro rfl
    have h : (-1 : Int) = n := hb
    omega
  rw [toInt_div_of_ne_right a b hb', ha, hb]
  rfl

theorem half (ha : a.Holds m) : (a >>> 1).Holds (m / 2) := by
  have hshift : (a >>> 1).toInt = a.toInt / 2 := by
    rw [← toInt_toBitVec, Int32.toBitVec_shiftRight]
    simp [BitVec.toInt_sshiftRight, Int.shiftRight_eq_div_pow]
  unfold Holds
  rw [hshift, ha]
  rfl

theorem toUInt32 (ha : a.Holds m) : a.toUInt32.toNat = m := by
  have h0 : 0 ≤ a := by
    rw [le_iff_toInt_le, ha]
    exact Int.natCast_nonneg m
  rw [toNat_toUInt32_of_le h0, toNatClampNeg, ha]
  rfl

/-- The value as a `size_t`. -/
theorem toUInt64 (ha : a.Holds m) : a.toInt64.toUInt64.toNat = m := by
  have h0 : 0 ≤ a.toInt64 := by
    rw [Int64.le_iff_toInt_le, toInt_toInt64, ha]
    exact Int.natCast_nonneg m
  rw [Int64.toNat_toUInt64_of_le h0, Int64.toNatClampNeg, toInt_toInt64, ha]
  rfl

end Holds

/-- An `unsigned` that is positive as an `int` keeps its value. -/
theorem toInt_toInt32_of_pos {n : UInt32} (h : 0 < n.toInt32.toInt) :
    n.toInt32.toInt = n.toNat := by
  have hn : n.toInt32.toInt = (n.toNat : Int).bmod (2 ^ 32) := by
    rw [← Int32.toInt_toBitVec, BitVec.toInt_eq_toNat_bmod]
    rfl
  have hlt := n.toNat_lt
  rw [hn, Int.bmod_def] at h ⊢
  split at h <;> omega

theorem lt_of_toInt32_pos {n : UInt32} (h : 0 < n.toInt32.toInt) : n.toNat < 2 ^ 31 := by
  have hn := toInt_toInt32_of_pos h
  have hlt := n.toInt32.toInt_lt
  omega

end Int32

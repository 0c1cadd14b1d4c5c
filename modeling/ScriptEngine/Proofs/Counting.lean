import Mathlib.Algebra.Group.Nat.Defs
import Mathlib.Data.Nat.Log
import ScriptEngine.Number.Basic

/-!
# Counts as numbers

A natural number with at most fifty-three binary digits is exact as a number, so that a position in
a sequence comes back from a script as it went there.
-/

namespace ScriptEngine

namespace Number

variable {n : Nat}

/-- The shift that makes powers of two does. -/
theorem pow2_eq (n : Nat) : pow2 n = 2 ^ n := rfl

/-- The fields of a number in terms of its bits. -/
theorem fields_of_toNat {x : Number} {e f : Nat} (he : e < 2047) (hf : f < 2 ^ 52)
    (h : x.bits.toNat = e * 2 ^ 52 + f) :
    x.isNegative = false ∧ x.isFinite = true ∧ x.exponentField = e ∧ x.fractionField = f := by
  unfold isNegative isFinite magnitude exponentField fractionField
  simp only [pow2_eq, h]
  refine ⟨?_, ?_, ?_, ?_⟩
  · rw [beq_eq_false_iff_ne]
    omega
  · rw [decide_eq_true_iff]
    omega
  · omega
  · omega

/-- The binary digits that a count leaves open in a significand of fifty-three digits. -/
def spare (n : Nat) : Nat := 52 - Nat.log2 n

/-- The leading digit of a count and the digits that are spare below it fill the significand. -/
theorem log2_add_spare (hzero : n ≠ 0) (h : n < 2 ^ 53) : Nat.log2 n + spare n = 52 := by
  have hlog : Nat.log2 n < 53 := (Nat.log2_lt hzero).2 h
  unfold spare
  omega

/-- Moved up, a count fills the significand. -/
theorem significand_bounds (hzero : n ≠ 0) (h : n < 2 ^ 53) :
    2 ^ 52 ≤ n * 2 ^ spare n ∧ n * 2 ^ spare n < 2 ^ 53 := by
  have hk := log2_add_spare hzero h
  constructor
  · rw [← hk, Nat.pow_add]
    exact Nat.mul_le_mul_right _ (Nat.log2_self_le hzero)
  · have hlt : n * 2 ^ spare n < 2 ^ (Nat.log2 n + 1) * 2 ^ spare n :=
      Nat.mul_lt_mul_of_pos_right Nat.lt_log2_self (Nat.two_pow_pos _)
    rwa [← Nat.pow_add, show Nat.log2 n + 1 + spare n = 53 by omega] at hlt

/-- The bits of a count. -/
theorem toNat_bits_ofNat (hzero : n ≠ 0) (h : n < 2 ^ 53) :
    (ofNat n).bits.toNat = (1075 - spare n) * 2 ^ 52 + (n * 2 ^ spare n - 2 ^ 52) := by
  have hk := log2_add_spare hzero h
  obtain ⟨hlow, hhigh⟩ := significand_bounds hzero h
  -- the unit in the last place is the power of two that leaves fifty-three digits
  have hround : roundMagnitude n 0 = (1074 - spare n) * 2 ^ 52 + n * 2 ^ spare n := by
    have hunit : max ((0 : Int) + ((Nat.log2 n : Int) + 1) - 53) (-1074) = -(spare n : Int) := by
      omega
    unfold roundMagnitude
    rw [if_neg hzero]
    simp only [hunit, pow2_eq]
    rw [if_neg (by omega), if_neg (by omega),
      show ((0 : Int) - -(spare n : Int)).toNat = spare n by omega,
      show (-(spare n : Int) + 1074).toNat = 1074 - spare n by omega]
    exact Nat.min_eq_left (by omega)
  unfold ofNat ofScaled
  rw [hround]
  simp only [UInt64.toNat_ofNat']
  simp
  omega

/-- A count as an integer multiple of a power of two. -/
theorem ofNat_fields (h : n < 2 ^ 53) :
    (ofNat n).isNegative = false ∧ (ofNat n).isFinite = true ∧
      ∃ k : Nat, (ofNat n).scale = -(k : Int) ∧ (ofNat n).significand = n * 2 ^ k := by
  by_cases hzero : n = 0
  · subst hzero
    obtain ⟨k, hk⟩ : ∃ k, k = 1074 := ⟨_, rfl⟩
    refine ⟨rfl, rfl, k, hk ▸ rfl, ?_⟩
    rw [Nat.zero_mul]
    rfl
  have hk := log2_add_spare hzero h
  obtain ⟨hlow, hhigh⟩ := significand_bounds hzero h
  obtain ⟨hsign, hfinite, hexponent, hfraction⟩ :=
    fields_of_toNat (by omega) (by omega) (toNat_bits_ofNat hzero h)
  refine ⟨hsign, hfinite, spare n, ?_, ?_⟩
  · unfold scale
    rw [hexponent, if_neg (by omega)]
    omega
  · unfold significand
    rw [hexponent, hfraction, if_neg (by omega), pow2_eq]
    omega

/-- The whole part of a count is the count. -/
theorem wholePart_ofNat (h : n < 2 ^ 53) : (ofNat n).wholePart = n := by
  obtain ⟨-, -, k, hscale, hsignificand⟩ := ofNat_fields h
  unfold wholePart
  rw [hscale, hsignificand, pow2_eq, pow2_eq]
  split
  · next hk =>
    obtain rfl : k = 0 := by omega
    simp
  · rw [show (- -(k : Int)).toNat = k by omega]
    exact Nat.mul_div_cancel _ (Nat.two_pow_pos k)

/-- A count is whole. -/
theorem isWhole_ofNat (h : n < 2 ^ 53) : (ofNat n).isWhole = true := by
  obtain ⟨-, hfinite, k, hscale, hsignificand⟩ := ofNat_fields h
  unfold isWhole
  rw [hscale, hsignificand, hfinite, pow2_eq, show (- -(k : Int)).toNat = k by omega]
  simp

/-- A finite number is not NaN. -/
theorem isNaN_of_isFinite {x : Number} (h : x.isFinite = true) : x.isNaN = false := by
  unfold isNaN
  unfold isFinite at h
  simp at h ⊢
  omega

/-- A finite number is not infinite. -/
theorem isInfinite_of_isFinite {x : Number} (h : x.isFinite = true) : x.isInfinite = false := by
  unfold isInfinite
  unfold isFinite at h
  simp at h ⊢
  omega

/-- Truncating a count gives the count. -/
theorem truncate_ofNat (h : n < 2 ^ 53) : (ofNat n).truncate = n := by
  unfold truncate
  rw [(ofNat_fields h).1, wholePart_ofNat h]
  simp

/-- A count comes back as the position it stands for. -/
theorem toIndex?_ofNat (h : n < 2 ^ 53) : (ofNat n).toIndex? = some (n : Int) := by
  have hfinite := (ofNat_fields h).2.1
  unfold toIndex? saturate
  rw [isWhole_ofNat h, isNaN_of_isFinite hfinite, isInfinite_of_isFinite hfinite, truncate_ofNat h]
  simp [minInt64, maxInt64, pow2_eq]
  omega

/-- Clamping a count to a machine word gives the count. -/
theorem clampWord_ofNat (h : n < 2 ^ 53) : (ofNat n).clampWord = n := by
  obtain ⟨hsign, hfinite, -⟩ := ofNat_fields h
  unfold clampWord
  rw [hsign, isNaN_of_isFinite hfinite, isInfinite_of_isFinite hfinite, wholePart_ofNat h]
  simp [pow2_eq]
  omega

/-- A count is not negative. -/
theorem zero_lessEq_ofNat (h : n < 2 ^ 53) : zero.lessEq (ofNat n) = true := by
  obtain ⟨hsign, hfinite, -⟩ := ofNat_fields h
  have hrank : (0 : Int) ≤ (ofNat n).rank := by
    unfold rank
    rw [hsign]
    exact Int.natCast_nonneg _
  unfold lessEq
  rw [isNaN_of_isFinite hfinite, show zero.rank = 0 from rfl, decide_eq_true hrank]
  rfl

end Number

end ScriptEngine

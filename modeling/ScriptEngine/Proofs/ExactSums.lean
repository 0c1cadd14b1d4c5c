import Mathlib
import ScriptEngine.Number.Arithmetic
import ScriptEngine.Proofs.Counting

/-!
# Sums of counts

A machine sum rounds, but a sum that has at most fifty-three binary digits needs no rounding: both
addends are multiples of one power of two, and all that the significand of the sum drops is zeros. So
the position after a position is the next count. Only sums of counts are looked at; signs, infinities
and what is rounded are left out.
-/

namespace ScriptEngine.Number

open Float.Model Float.Model.UnpackedFloat

variable {n p q k : Nat}

/-! ## The bits of machine numbers -/

/-- The exponent field of a machine number, as a count. -/
theorem toNat_unpackExponent (b : BitVec Format.binary64.numBits) :
    (unpackExponent b).toNat = b.toNat / 2 ^ 52 % 2 ^ 11 := by
  simp [unpackExponent, Nat.shiftRight_eq_div_pow]

/-- The mantissa field of a machine number, as a count. -/
theorem toNat_unpackMantissa (b : BitVec Format.binary64.numBits) :
    (unpackMantissa b).toNat = b.toNat % 2 ^ 52 := by
  simp [unpackMantissa]

/-- The sign bit of a machine number, as a count. -/
theorem toNat_unpackSign (b : BitVec Format.binary64.numBits) :
    (unpackSign b).toNat = b.toNat / 2 ^ 63 % 2 := by
  simp [unpackSign, Nat.shiftRight_eq_div_pow]

/-- A positive machine number put together of its fields, as a count. -/
theorem toNat_packComponents (e : BitVec 11) (m : BitVec 52) :
    (packComponents Format.binary64 .positive e m).toNat = e.toNat * 2 ^ 52 + m.toNat := by
  simp only [packComponents, Sign.toBitVec, BitVec.toNat_append]
  rw [← Nat.shiftLeft_add_eq_or_of_lt m.isLt]
  simp [Nat.shiftLeft_eq]

/-! ## Counts -/

/-- What a count is taken apart into. -/
def unpacked (n : Nat) : UnpackedFloat :=
  if h : n = 0 then .zero .positive
  else .finite .positive (n * 2 ^ spare n) (-(spare n : Int))
    (Nat.mul_pos (Nat.pos_of_ne_zero h) (Nat.two_pow_pos _))

/-- The bits of a count. -/
def packed (n : Nat) : BitVec Format.binary64.numBits := (ofNat n).bits.toBitVec

/-- The bits of the machine number for a count that is not zero. -/
theorem toNat_packed (hzero : n ≠ 0) (h : n < 2 ^ 53) :
    (packed n).toNat = (1075 - spare n) * 2 ^ 52 + (n * 2 ^ spare n - 2 ^ 52) :=
  toNat_bits_ofNat hzero h

/-- Taking apart the machine number for a count gives its exact significand and exponent. -/
theorem unpack_packed (h : n < 2 ^ 53) :
    UnpackedFloat.unpack Format.binary64 (packed n) = unpacked n := by
  by_cases hzero : n = 0
  · subst hzero
    rfl
  have hk := log2_add_spare hzero h
  obtain ⟨hlow, hhigh⟩ := significand_bounds hzero h
  have hbits := toNat_packed hzero h
  have hexponent : (unpackExponent (packed n)).toNat = 1075 - spare n := by
    rw [toNat_unpackExponent, hbits]
    omega
  have hmantissa : (unpackMantissa (packed n)).toNat =
      n * 2 ^ spare n - 2 ^ 52 := by
    rw [toNat_unpackMantissa, hbits]
    omega
  have hsign : unpackSign (packed n) = 0#1 := by
    apply BitVec.eq_of_toNat_eq
    rw [toNat_unpackSign, hbits]
    show _ = 0
    omega
  have hordinary : (unpackExponent (packed n)) ≠ -1#11 ∧
      (unpackExponent (packed n)) ≠ 0#11 := by
    constructor
    · intro heq
      rw [heq, show (-1#11).toNat = 2047 from rfl] at hexponent
      omega
    · intro heq
      rw [heq, show (0#11).toNat = 0 from rfl] at hexponent
      omega
  have hwhole : (1#1 ++ (unpackMantissa (packed n))).toNat =
      n * 2 ^ spare n := by
    rw [BitVec.toNat_append, ← Nat.shiftLeft_add_eq_or_of_lt (BitVec.isLt _), hmantissa]
    simp [Nat.shiftLeft_eq]
    omega
  unfold UnpackedFloat.unpack unpacked
  dsimp only
  rw [if_neg hordinary.1, if_neg hordinary.2, dif_neg hzero, hsign]
  congr 1
  rw [hexponent]
  simp [Format.exponentBias]
  omega

/-- Putting together the significand and exponent of a count gives its machine number. -/
theorem pack_unpacked (h : n < 2 ^ 53) :
    UnpackedFloat.pack Format.binary64 (unpacked n) = packed n := by
  by_cases hzero : n = 0
  · subst hzero
    rfl
  have hk := log2_add_spare hzero h
  obtain ⟨hlow, hhigh⟩ := significand_bounds hzero h
  have hlog : (n * 2 ^ spare n).log2 = 52 := by
    rw [Nat.log2_eq_iff (by omega)]
    exact ⟨hlow, hhigh⟩
  have hbiased : (-(spare n : Int) + (Format.binary64.exponentBias : Int) +
      (Format.binary64.mantissaBitsWithoutImplicit : Int)).toNat = 1075 - spare n := by
    simp [Format.exponentBias]
    omega
  apply BitVec.eq_of_toNat_eq
  rw [toNat_packed hzero h, unpacked, dif_neg hzero]
  unfold UnpackedFloat.pack
  dsimp only
  rw [hbiased, if_neg (by simp; omega), if_pos (by rw [hlog]; rfl), toNat_packComponents]
  simp
  omega

/-! ## Sums -/

/-- Shifting out trailing zeros loses nothing and marks nothing as lost. -/
theorem repeat_shiftRightOne (m k : Nat) :
    Nat.repeat ExtendedMantissa.shiftRightOne k ⟨m * 2 ^ k, false, false⟩ = ⟨m, false, false⟩ := by
  induction k generalizing m with
  | zero => simp [Nat.repeat]
  | succ k ih =>
    rw [Nat.repeat, Nat.pow_succ, Nat.mul_comm (2 ^ k), ← Nat.mul_assoc, ih]
    simp [ExtendedMantissa.shiftRightOne]

/-- A power of two as a factor moves the leading digit. -/
theorem log2_mul_two_pow (hzero : n ≠ 0) (k : Nat) : (n * 2 ^ k).log2 = n.log2 + k := by
  have hpos := Nat.two_pow_pos k
  rw [Nat.log2_eq_iff (Nat.mul_ne_zero hzero (Nat.ne_of_gt hpos))]
  constructor
  · rw [Nat.pow_add]
    exact Nat.mul_le_mul_right _ (Nat.log2_self_le hzero)
  · rw [Nat.add_right_comm, Nat.pow_add]
    exact Nat.mul_lt_mul_of_pos_right Nat.lt_log2_self hpos

/-- The unit in the last place of a count, of whatever power of two it is made a multiple. -/
theorem targetExponent_multiple (hzero : n ≠ 0) (h : n < 2 ^ 53) (k : Nat) :
    Format.binary64.targetExponent (totalExponent (n * 2 ^ k) (-(k : Int))) = -(spare n : Int) := by
  have hspare := log2_add_spare hzero h
  unfold Format.targetExponent totalExponent
  rw [log2_mul_two_pow hzero]
  simp [Format.minExponent, Format.mantissaBits]
  omega

/-- What is dropped down to the unit in the last place is zeros. -/
theorem shift_multiple (hzero : n ≠ 0) (h : n < 2 ^ 53) (hk : spare n ≤ k) :
    shiftToTargetExponent Format.binary64 (n * 2 ^ k) (-(k : Int)) .exact =
      (⟨n * 2 ^ spare n, false, false⟩, -(spare n : Int)) := by
  obtain ⟨j, rfl⟩ := Nat.exists_eq_add_of_le hk
  have hshift : (-(spare n : Int) - -((spare n + j : Nat) : Int)).toNat = j := by omega
  unfold shiftToTargetExponent shiftToExponent
  dsimp only
  rw [targetExponent_multiple hzero h, hshift, Nat.pow_add, ← Nat.mul_assoc]
  refine Prod.ext (repeat_shiftRightOne _ j) ?_
  show -((spare n + j : Nat) : Int) + (j : Int) = _
  omega

/-- A multiple of a power of two is not rounded as long as it fits the significand. -/
theorem round_multiple (hzero : n ≠ 0) (h : n < 2 ^ 53) (hk : spare n ≤ k) :
    round Format.binary64 .positive (n * 2 ^ k) (-(k : Int)) = unpacked n := by
  have hraised : (-(k : Int) - -(spare n : Int)).toNat = 0 := by omega
  have hlast := shift_multiple hzero h (Nat.le_refl _)
  have hne : n * 2 ^ spare n ≠ 0 := Nat.mul_ne_zero hzero (Nat.ne_of_gt (Nat.two_pow_pos _))
  unfold UnpackedFloat.round decreaseExponent roundWithAccuracy
  dsimp only
  rw [targetExponent_multiple hzero h, hraised, Nat.shiftLeft_zero, Int.natCast_zero, Int.sub_zero,
    shift_multiple hzero h hk]
  simp only [ExtendedMantissa.roundedMantissa, ExtendedMantissa.accuracy,
    Accuracy.roundToNearestEven, hlast, hne, hzero, unpacked, dif_neg, not_false_eq_true]

/-- A greater count leaves fewer digits open. -/
theorem spare_le (hp : p ≠ 0) (h : p ≤ n) : spare n ≤ spare p := by
  have hlog : p.log2 ≤ n.log2 :=
    (Nat.le_log2 (by omega)).2 (Nat.le_trans (Nat.log2_self_le hp) h)
  unfold spare
  omega

/-- The sum of the parts of two counts is that of the parts of their sum. -/
theorem add_unpacked (h : p + q < 2 ^ 53) :
    UnpackedFloat.add Format.binary64 (unpacked p) (unpacked q) = unpacked (p + q) := by
  by_cases hp : p = 0
  · subst hp
    by_cases hq : q = 0
    · subst hq
      rfl
    · simp only [unpacked, Nat.zero_add, dif_pos, dif_neg hq, UnpackedFloat.add]
  by_cases hq : q = 0
  · subst hq
    simp only [unpacked, Nat.add_zero, dif_pos, dif_neg hp, UnpackedFloat.add]
  have hsum : p + q ≠ 0 := by omega
  -- both are multiples of the smaller of their units
  obtain ⟨k, hk⟩ : ∃ k, k = max (spare p) (spare q) := ⟨_, rfl⟩
  have hunit : min (-(spare p : Int)) (-(spare q : Int)) = -(k : Int) := by omega
  have haligned : ∀ n, spare n ≤ k →
      (n * 2 ^ spare n) <<< (-(spare n : Int) - -(k : Int)).toNat = n * 2 ^ k := by
    intro n hn
    rw [Nat.shiftLeft_eq, Nat.mul_assoc, ← Nat.pow_add]
    congr 2
    omega
  have htotal : ((p * 2 ^ k : Nat) : Int) + ((q * 2 ^ k : Nat) : Int) =
      (((p + q) * 2 ^ k : Nat) : Int) := by
    rw [Nat.add_mul]
    rfl
  have hpositive : 0 < (p + q) * 2 ^ k := Nat.mul_pos (by omega) (Nat.two_pow_pos _)
  have hspare : spare (p + q) ≤ k := by
    have hle := spare_le hp (Nat.le_add_right p q)
    omega
  rw [unpacked, unpacked, dif_neg hp, dif_neg hq]
  unfold UnpackedFloat.add decreaseExponent
  dsimp only [Sign.apply]
  rw [hunit, haligned p (by omega), haligned q (by omega), htotal]
  unfold UnpackedFloat.normalize
  rw [show compare (((p + q) * 2 ^ k : Nat) : Int) 0 = .gt from
    Int.compare_eq_gt.2 (Int.natCast_pos.2 hpositive)]
  exact round_multiple hsum h hspare

/-- Sums of counts are exact. -/
theorem add_ofNat (h : p + q < 2 ^ 53) : (ofNat p).add (ofNat q) = ofNat (p + q) := by
  have hmodel : ∀ {n}, n < 2 ^ 53 → (ofNat n).toFloat.toModel.unpack = unpacked n := by
    intro n hn
    show UnpackedFloat.unpack Format.binary64 (UnpackedFloat.pack Format.binary64
      (UnpackedFloat.unpack Format.binary64 (packed n))) = _
    rw [unpack_packed hn, pack_unpacked hn, unpack_packed hn]
  have hbits : ((ofNat p).add (ofNat q)).bits.toBitVec = packed (p + q) := by
    show UnpackedFloat.pack Format.binary64 (UnpackedFloat.add Format.binary64
      (ofNat p).toFloat.toModel.unpack (ofNat q).toFloat.toModel.unpack) = _
    rw [hmodel (by omega), hmodel (by omega), add_unpacked h, pack_unpacked h]
  exact congrArg Number.mk (UInt64.toBitVec_inj.1 hbits)

end ScriptEngine.Number

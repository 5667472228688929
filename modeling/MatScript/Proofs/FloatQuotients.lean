import Mathlib
import MatScript.Element

/-! Quotients of integers as floats. The float nearest to a quotient of integers is found from the
exact ratio. Element by element, both integers are turned into floats first, which are then divided.
Where both integers are floats already, the two ways give the same float. -/
namespace MatScript.Number

open Float.Model Float.Model.UnpackedFloat

/-! ## Rounding a ratio -/

/-- Only the ratio matters for its rounding. -/
lemma roundDiv_eq_of_ratio {n d p q : Nat} (hd : 0 < d) (hq : 0 < q) (h : n * q = p * d) :
    roundDiv n d = roundDiv p q := by
  have hdiv : n / d = p / q := by
    rw [← Nat.mul_div_mul_right n d hq, h, Nat.mul_comm d q, Nat.mul_div_mul_right p q hd]
  have hmod : n % d * q = p % q * d := by
    rw [← Nat.mul_mod_mul_right, h, Nat.mul_comm d q, Nat.mul_mod_mul_right]
  have hlt : 2 * (n % d) < d ↔ 2 * (p % q) < q :=
    calc 2 * (n % d) < d ↔ 2 * (n % d) * q < d * q := (Nat.mul_lt_mul_right hq).symm
      _ ↔ 2 * (p % q) * d < q * d := by rw [Nat.mul_assoc, hmod, ← Nat.mul_assoc, Nat.mul_comm d q]
      _ ↔ 2 * (p % q) < q := Nat.mul_lt_mul_right hd
  have hgt : d < 2 * (n % d) ↔ q < 2 * (p % q) :=
    calc d < 2 * (n % d) ↔ d * q < 2 * (n % d) * q := (Nat.mul_lt_mul_right hq).symm
      _ ↔ q * d < 2 * (p % q) * d := by
        rw [Nat.mul_assoc 2, hmod, ← Nat.mul_assoc, Nat.mul_comm d q]
      _ ↔ q < 2 * (p % q) := Nat.mul_lt_mul_right hd
  simp only [roundDiv, hdiv, hlt, hgt]

/-- A mantissa with the two bits behind it, as those of a ratio. -/
structure Represents (em : ExtendedMantissa) (p q : Nat) : Prop where
  mantissa : em.mantissa = p / q
  roundBit : em.roundBit = decide (q ≤ 2 * (p % q))
  stickyBit : em.stickyBit = decide (p % q ≠ 0 ∧ 2 * (p % q) ≠ q)

lemma represents_fraction {p q : Nat} (hq : 0 < q) :
    Represents (.ofMantissaAndAccuracy (p / q) (accuracyOfFraction (p % q) q)) p q := by
  unfold accuracyOfFraction
  split
  · next hzero =>
    refine ⟨rfl, ?_, ?_⟩ <;> simp [ExtendedMantissa.ofMantissaAndAccuracy, hzero]
    omega
  · next hzero =>
    cases hc : compare (2 * (p % q)) q with
    | lt =>
      rw [Nat.compare_eq_lt] at hc
      refine ⟨rfl, ?_, ?_⟩ <;> simp [ExtendedMantissa.ofMantissaAndAccuracy] <;> omega
    | eq =>
      rw [Nat.compare_eq_eq] at hc
      refine ⟨rfl, ?_, ?_⟩ <;> simp [ExtendedMantissa.ofMantissaAndAccuracy] <;> omega
    | gt =>
      rw [Nat.compare_eq_gt] at hc
      refine ⟨rfl, ?_, ?_⟩ <;> simp [ExtendedMantissa.ofMantissaAndAccuracy] <;> omega

namespace Represents

variable {em : ExtendedMantissa} {p q : Nat}

/-- A shift halves the ratio. -/
lemma shiftRightOne (h : Represents em p q) (hq : 0 < q) :
    Represents em.shiftRightOne p (q * 2) := by
  have hmod : p % (q * 2) = p % q + q * (p / q % 2) := Nat.mod_mul
  have hlt := Nat.mod_lt p hq
  have hodd := Nat.mod_two_eq_zero_or_one (p / q)
  refine ⟨?_, ?_, ?_⟩
  · rw [ExtendedMantissa.shiftRightOne, h.mantissa, Nat.div_div_eq_div_mul]
  · rw [ExtendedMantissa.shiftRightOne, h.mantissa, hmod]
    rcases hodd with hodd | hodd <;> simp [hodd] <;> omega
  · rw [ExtendedMantissa.shiftRightOne, h.roundBit, h.stickyBit, hmod]
    rw [Bool.eq_iff_iff]
    rcases hodd with hodd | hodd <;> simp [hodd] <;> omega

lemma shiftRight (h : Represents em p q) (hq : 0 < q) (k : Nat) :
    Represents (em >>> k) p (q * 2 ^ k) := by
  induction k with
  | zero => simpa [HShiftRight.hShiftRight, Nat.repeat] using h
  | succ k ih =>
    rw [Nat.pow_succ, ← Nat.mul_assoc]
    exact ih.shiftRightOne (by positivity)

/-- Rounding by the two bits is rounding to the nearest. -/
lemma roundedMantissa (h : Represents em p q) : em.roundedMantissa = roundDiv p q := by
  obtain ⟨m, round, sticky⟩ := em
  obtain ⟨rfl, rfl, rfl⟩ := h
  unfold ExtendedMantissa.roundedMantissa ExtendedMantissa.accuracy roundDiv
  rcases Nat.lt_trichotomy (2 * (p % q)) q with hlt | heq | hgt
  · have hround : decide (q ≤ 2 * (p % q)) = false := by simp [hlt]
    rw [hround, if_pos hlt]
    split <;> simp_all [Accuracy.roundToNearestEven]
  · have hround : decide (q ≤ 2 * (p % q)) = true := by simp [heq]
    have hsticky : decide (p % q ≠ 0 ∧ 2 * (p % q) ≠ q) = false := by simp [heq]
    rw [hround, hsticky, if_neg (by omega), if_neg (by omega)]
    rfl
  · have hround : decide (q ≤ 2 * (p % q)) = true := by simp [hgt.le]
    have hsticky : decide (p % q ≠ 0 ∧ 2 * (p % q) ≠ q) = true := by
      simp only [decide_eq_true_eq]
      omega
    rw [hround, hsticky, if_neg (by omega), if_pos hgt]
    rfl

end Represents

/-! ## Bits of finite floats -/

def signOf (negative : Bool) : Sign := if negative then .negative else .positive

/-- The bits of the float `± m * 2 ^ e`. -/
def finiteBits (negative : Bool) (m : Nat) (e : Int) : Nat :=
  (e + 1074).toNat * Nat.pow 2 52 + m + if negative then Nat.pow 2 63 else 0

/-- A mantissa of full length and an exponent in range. -/
structure Normal (m : Nat) (e : Int) : Prop where
  le_mantissa : 2 ^ 52 ≤ m
  mantissa_lt : m < 2 ^ 53
  le_exponent : -1074 ≤ e
  exponent_le : e ≤ 970

section

variable {negative : Bool} {m : Nat} {e : Int}

lemma Normal.pos (h : Normal m e) : 0 < m := by
  have := h.le_mantissa
  omega

lemma toNat_packComponents (negative : Bool) (exponent : BitVec 11) (mantissa : BitVec 52) :
    (packComponents Format.binary64 (signOf negative) exponent mantissa).toNat =
      exponent.toNat * 2 ^ 52 + mantissa.toNat + if negative then 2 ^ 63 else 0 := by
  have hm := mantissa.isLt
  have he := exponent.isLt
  unfold packComponents
  rw [BitVec.toNat_append, BitVec.toNat_append, ← Nat.shiftLeft_add_eq_or_of_lt he,
    ← Nat.shiftLeft_add_eq_or_of_lt hm, Nat.shiftLeft_eq, Nat.shiftLeft_eq]
  cases negative <;> simp [signOf, Sign.toBitVec]; omega

/-- The parts that a normal float is packed into. -/
lemma pack_eq_packComponents (h : Normal m e) :
    UnpackedFloat.pack Format.binary64 (.finite (signOf negative) m e h.pos) =
      packComponents Format.binary64 (signOf negative) (BitVec.ofNat 11 (e + 1075).toNat)
        (BitVec.ofNat 52 m) := by
  obtain ⟨hlow, hhigh, hle, hle'⟩ := h
  have hlog : m.log2 = 52 := (Nat.log2_eq_iff (by omega)).2 ⟨hlow, hhigh⟩
  have hbias : (e + Format.binary64.exponentBias + Format.binary64.mantissaBitsWithoutImplicit).toNat =
      (e + 1075).toNat := by
    simp only [Format.exponentBias]
    congr 1
    omega
  unfold UnpackedFloat.pack
  simp only [hbias, hlog]
  have hfinite : ¬2 ^ Format.binary64.exponentBits ≤ (e + 1075).toNat + 1 := by
    norm_num
    omega
  rw [if_neg hfinite, if_pos (by rfl)]

/-- Packing a normal float gives its bits. -/
lemma toNat_pack (h : Normal m e) :
    (UnpackedFloat.pack Format.binary64 (.finite (signOf negative) m e h.pos)).toNat =
      finiteBits negative m e := by
  rw [pack_eq_packComponents h, toNat_packComponents, BitVec.toNat_ofNat, BitVec.toNat_ofNat]
  obtain ⟨hlow, hhigh, hle, hle'⟩ := h
  simp only [finiteBits, Nat.pow_eq]
  omega

lemma ofNat_finiteBits (h : Normal m e) :
    BitVec.ofNat 64 (finiteBits negative m e) =
      packComponents Format.binary64 (signOf negative) (BitVec.ofNat 11 (e + 1075).toNat)
        (BitVec.ofNat 52 m) := by
  apply BitVec.eq_of_toNat_eq
  rw [← pack_eq_packComponents h, toNat_pack h, BitVec.toNat_ofNat]
  obtain ⟨hlow, hhigh, hle, hle'⟩ := h
  apply Nat.mod_eq_of_lt
  simp only [finiteBits, Nat.pow_eq]
  split <;> omega

lemma unpackSign_packComponents (exponent : BitVec 11) (mantissa : BitVec 52) :
    Sign.ofBitVec (unpackSign (packComponents Format.binary64 (signOf negative) exponent mantissa)) =
      signOf negative := by
  have hsign : unpackSign (packComponents Format.binary64 (signOf negative) exponent mantissa) =
      (signOf negative).toBitVec := by
    apply BitVec.eq_of_toNat_eq
    have hm := mantissa.isLt
    have he := exponent.isLt
    simp only [unpackSign, BitVec.toNat_cast, BitVec.extractLsb_toNat, toNat_packComponents,
      Nat.shiftRight_eq_div_pow]
    cases negative <;> simp [signOf, Sign.toBitVec] <;> omega
  rw [hsign]
  cases negative <;> rfl

/-- Unpacking the bits of a normal float gives it back. -/
lemma unpack_finiteBits (h : Normal m e) :
    UnpackedFloat.unpack Format.binary64 (BitVec.ofNat 64 (finiteBits negative m e)) =
      .finite (signOf negative) m e h.pos := by
  rw [ofNat_finiteBits h]
  unfold UnpackedFloat.unpack
  simp only [unpackMantissa_packComponents, unpackExponent_packComponents, unpackSign_packComponents]
  obtain ⟨hlow, hhigh, hle, hle'⟩ := h
  have hexp : (BitVec.ofNat 11 (e + 1075).toNat).toNat = (e + 1075).toNat := by
    rw [BitVec.toNat_ofNat]
    omega
  have hones : BitVec.ofNat 11 (e + 1075).toNat ≠ -1#11 := by
    intro h
    have h := congrArg BitVec.toNat h
    rw [hexp] at h
    simp at h
    omega
  have hzero : BitVec.ofNat 11 (e + 1075).toNat ≠ 0#11 := by
    intro h
    have h := congrArg BitVec.toNat h
    rw [hexp] at h
    simp at h
    omega
  rw [if_neg hones, if_neg hzero]
  congr 1
  · rw [BitVec.toNat_append, BitVec.toNat_ofNat, BitVec.toNat_ofNat,
      ← Nat.shiftLeft_add_eq_or_of_lt (Nat.mod_lt _ (by positivity)), Nat.shiftLeft_eq]
    omega
  · rw [hexp]
    simp only [Format.exponentBias]
    omega

lemma ofBits_finiteBits (h : Normal m e) :
    Float.ofBits (.ofNat (finiteBits negative m e)) =
      .ofModel (Float.Model.pack (.finite (signOf negative) m e h.pos)) := by
  rw [← unpack_finiteBits h]
  rfl

lemma unpack_ofBits (h : Normal m e) :
    (Float.ofBits (.ofNat (finiteBits negative m e))).toModel.unpack =
      .finite (signOf negative) m e h.pos := by
  rw [ofBits_finiteBits h]
  have hbits : UnpackedFloat.pack Format.binary64 (.finite (signOf negative) m e h.pos) =
      BitVec.ofNat 64 (finiteBits negative m e) := by
    rw [pack_eq_packComponents h, ofNat_finiteBits h]
  change UnpackedFloat.unpack Format.binary64 (UnpackedFloat.pack Format.binary64 _) = _
  rw [hbits, unpack_finiteBits h]

/-! ## Division -/

lemma shiftToTargetExponent_eq {k : Nat} (accuracy : Accuracy) (hlog : m.log2 = 52 + k)
    (he : -1074 ≤ e) : shiftToTargetExponent Format.binary64 m e accuracy =
      (ExtendedMantissa.ofMantissaAndAccuracy m accuracy >>> k, e + k) := by
  have htarget : Format.binary64.targetExponent (totalExponent m e) = e + k := by
    simp only [Format.targetExponent, totalExponent, Format.mantissaBits, Format.minExponent, hlog]
    norm_num
    omega
  have hk : (e + k - e).toNat = k := by omega
  simp only [shiftToTargetExponent, shiftToExponent, htarget, hk]

lemma roundDiv_bounds (n d : Nat) : n / d ≤ roundDiv n d ∧ roundDiv n d ≤ n / d + 1 := by
  unfold roundDiv
  dsimp only
  split
  · omega
  · split <;> omega

/-- Rounding a ratio that is given by its integer part and what is left of it. A mantissa that is
rounded up to one more bit is the next one, with one more exponent. -/
lemma pack_roundWithAccuracy {p q k : Nat} (hq : 0 < q) (hlog : (p / q).log2 = 52 + k)
    (he : -1074 ≤ e) (hk : e + k ≤ 969) :
    Float.ofModel (Float.Model.pack (roundWithAccuracy Format.binary64 (signOf negative) (p / q) e
      (accuracyOfFraction (p % q) q))) =
      Float.ofBits (.ofNat (finiteBits negative (roundDiv p (q * 2 ^ k)) (e + k))) := by
  have hround : (ExtendedMantissa.ofMantissaAndAccuracy (p / q)
      (accuracyOfFraction (p % q) q) >>> k).roundedMantissa = roundDiv p (q * 2 ^ k) :=
    ((represents_fraction hq).shiftRight hq k).roundedMantissa
  have hne : p / q ≠ 0 := by
    intro hzero
    rw [hzero] at hlog
    simp at hlog
    omega
  have hdiv : 2 ^ 52 ≤ p / (q * 2 ^ k) ∧ p / (q * 2 ^ k) < 2 ^ 53 := by
    obtain ⟨hlow, hhigh⟩ := (Nat.log2_eq_iff hne).1 hlog
    rw [← Nat.div_div_eq_div_mul]
    constructor
    · rw [Nat.le_div_iff_mul_le (by positivity), ← Nat.pow_add]
      exact hlow
    · rw [Nat.div_lt_iff_lt_mul (by positivity), ← Nat.pow_add]
      exact hhigh.trans_eq (by congr 1; omega)
  have hbounds := roundDiv_bounds p (q * 2 ^ k)
  unfold roundWithAccuracy
  rw [shiftToTargetExponent_eq _ hlog he]
  dsimp only
  rw [hround]
  generalize roundDiv p (q * 2 ^ k) = r at hbounds ⊢
  by_cases hr : r = 2 ^ 53
  · -- the bits of the next float
    have hnormal : Normal (2 ^ 52) (e + k + 1) := ⟨by omega, by omega, by omega, by omega⟩
    have hbits : finiteBits negative r (e + k) = finiteBits negative (2 ^ 52) (e + k + 1) := by
      simp only [finiteBits, hr, Nat.pow_eq]
      omega
    have hshift : (ExtendedMantissa.ofMantissaAndAccuracy r .exact >>> 1).mantissa = 2 ^ 52 := by
      rw [hr]
      rfl
    rw [hbits, ofBits_finiteBits hnormal,
      shiftToTargetExponent_eq (k := 1) _ (hr ▸ Nat.log2_two_pow) (by omega)]
    simp only [hshift]
    rw [dif_neg (by decide)]
    rfl
  · have hnormal : Normal r (e + k) := ⟨by omega, by omega, by omega, by omega⟩
    have hlog : r.log2 = 52 := (Nat.log2_eq_iff (by omega)).2 ⟨hnormal.1, hnormal.2⟩
    have hshift : (ExtendedMantissa.ofMantissaAndAccuracy r .exact >>> 0).mantissa = r := rfl
    rw [ofBits_finiteBits hnormal, shiftToTargetExponent_eq (k := 0) _ hlog (by omega)]
    simp only [hshift, Nat.cast_zero, add_zero]
    rw [dif_neg (by omega)]

end

lemma signOf_div (x y : Bool) : signOf x / signOf y = signOf (x != y) := by
  cases x <;> cases y <;> rfl

/-- The quotient of two normal floats, with as many bits of the quotient of their mantissas as a
mantissa has, or one more. -/
lemma div_finiteBits {x y : Bool} {m n k : Nat} {e f : Int} (hm : Normal m e) (hn : Normal n f)
    (hlog : (m * 2 ^ 53 / n).log2 = 52 + k) (he : -1074 ≤ e - f - 53) (hk : e - f - 53 + k ≤ 969) :
    Float.ofBits (.ofNat (finiteBits x m e)) / Float.ofBits (.ofNat (finiteBits y n f)) =
      Float.ofBits (.ofNat (finiteBits (x != y) (roundDiv (m * 2 ^ 53) (n * 2 ^ k))
        (e - f - 53 + k))) := by
  have hlogm : m.log2 = 52 := (Nat.log2_eq_iff hm.pos.ne').2 ⟨hm.1, hm.2⟩
  have hlogn : n.log2 = 52 := (Nat.log2_eq_iff hn.pos.ne').2 ⟨hn.1, hn.2⟩
  have htarget : Format.binary64.targetExponent (totalExponent m e - totalExponent n f) =
      e - f - 53 := by
    simp only [Format.targetExponent, totalExponent, Format.mantissaBits, Format.minExponent, hlogm,
      hlogn]
    norm_num
    omega
  have hcore : divCore Format.binary64 m e n f =
      (m * 2 ^ 53 / n, e - f - 53, accuracyOfFraction (m * 2 ^ 53 % n) n) := by
    have hmin : min (e - f) (e - f - 53) = e - f - 53 := by omega
    have hshift : (e - f - (e - f - 53)).toNat = 53 := by omega
    simp only [divCore, htarget, hmin, hshift, Nat.shiftLeft_eq]
  rw [← pack_roundWithAccuracy hn.pos hlog he hk, ← signOf_div]
  change Float.ofModel (Float.Model.pack (UnpackedFloat.div Format.binary64
    (Float.ofBits _).toModel.unpack (Float.ofBits _).toModel.unpack)) = _
  rw [unpack_ofBits hm, unpack_ofBits hn]
  simp only [UnpackedFloat.div, hcore]

/-! ## The nearest float of a ratio -/

section

variable {base n d : Nat}

lemma scaled_pos (hbase : 0 < base) (hd : 0 < d) (e : Int) : 0 < (scaled base n d e).2 := by
  unfold scaled
  split
  · exact hd
  · exact Nat.mul_pos hd (Nat.pow_pos hbase)

lemma scaled_ratio (base n d : Nat) (e : Int) :
    ((scaled base n d e).1 : ℚ) / (scaled base n d e).2 = n / d * base ^ e := by
  unfold scaled
  split
  · next he =>
    obtain ⟨k, rfl⟩ := Int.eq_ofNat_of_zero_le he
    simp only [Nat.pow_eq, Int.toNat_natCast, Nat.cast_mul, Nat.cast_pow, zpow_natCast]
    ring
  · next he =>
    obtain ⟨k, hk⟩ := Int.eq_ofNat_of_zero_le (show 0 ≤ -e by omega)
    obtain rfl : e = -(k : Int) := by omega
    simp only [Nat.pow_eq, neg_neg, Int.toNat_natCast, Nat.cast_mul, Nat.cast_pow, zpow_neg,
      zpow_natCast]
    rw [div_mul_eq_div_div]
    ring

end

/-- A number is between two powers of two. -/
lemma log2_bounds {n : Nat} (hn : 0 < n) :
    (2 : ℚ) ^ (n.log2 : Int) ≤ n ∧ (n : ℚ) < 2 ^ ((n.log2 : Int) + 1) := by
  obtain ⟨hlow, hhigh⟩ := (Nat.log2_eq_iff hn.ne').1 rfl
  rw [← Nat.cast_succ, zpow_natCast, zpow_natCast]
  exact ⟨by exact_mod_cast hlow, by exact_mod_cast hhigh⟩

/-- A ratio is less than one power of two away from that of the lengths. -/
lemma ratio_between {n d : Nat} (hn : 0 < n) (hd : 0 < d) :
    (2 : ℚ) ^ ((n.log2 : Int) - d.log2 - 1) < n / d ∧
      (n : ℚ) / d < 2 ^ ((n.log2 : Int) - d.log2 + 1) := by
  obtain ⟨hnlow, hnhigh⟩ := log2_bounds hn
  obtain ⟨hdlow, hdhigh⟩ := log2_bounds hd
  have hdpos : (0 : ℚ) < d := by exact_mod_cast hd
  have hnpos : (0 : ℚ) < n := by exact_mod_cast hn
  constructor
  · rw [show (n.log2 : Int) - d.log2 - 1 = n.log2 - (d.log2 + 1) by omega, zpow_sub₀ two_ne_zero]
    calc (2 : ℚ) ^ (n.log2 : Int) / 2 ^ ((d.log2 : Int) + 1) ≤ n / 2 ^ ((d.log2 : Int) + 1) := by
          gcongr
      _ < n / d := div_lt_div_of_pos_left hnpos hdpos hdhigh
  · rw [show (n.log2 : Int) - d.log2 + 1 = n.log2 + 1 - d.log2 by omega, zpow_sub₀ two_ne_zero]
    calc (n : ℚ) / d ≤ n / 2 ^ (d.log2 : Int) := by gcongr
      _ < 2 ^ ((n.log2 : Int) + 1) / 2 ^ (d.log2 : Int) := by gcongr

/-- The exponent of the nearest float is that of the ratio, unless the ratio is too small for it. -/
lemma nearestBits_eq {n d : Nat} {e : Int} (hn : 0 < n) (hd : 0 < d)
    (hlow : e = -1074 ∨ (2 : ℚ) ^ (e + 52) ≤ n / d) (hhigh : (n : ℚ) / d < 2 ^ (e + 53))
    (he : -1074 ≤ e) :
    nearestBits n d = min ((e + 1074).toNat * Nat.pow 2 52 +
      roundDiv (scaled 2 n d (-e)).1 (scaled 2 n d (-e)).2) infinityBits := by
  set k : Int := (n.log2 : Int) - d.log2 with hk
  have hbetween : (2 : ℚ) ^ (k - 1) < n / d ∧ (n : ℚ) / d < 2 ^ (k + 1) := ratio_between hn hd
  have hone : (scaled 2 n d (-k)).2 ≤ (scaled 2 n d (-k)).1 ↔ (2 : ℚ) ^ k ≤ n / d := by
    have hpos : (0 : ℚ) < (scaled 2 n d (-k)).2 := by exact_mod_cast scaled_pos two_pos hd (-k)
    have hcast : (scaled 2 n d (-k)).2 ≤ (scaled 2 n d (-k)).1 ↔
        ((scaled 2 n d (-k)).2 : ℚ) ≤ (scaled 2 n d (-k)).1 := Nat.cast_le.symm
    rw [hcast, ← one_le_div hpos, scaled_ratio, Nat.cast_ofNat, zpow_neg, ← div_eq_mul_inv,
      one_le_div (by positivity)]
  have hexp : max (if (scaled 2 n d (-k)).2 ≤ (scaled 2 n d (-k)).1 then k - 52 else k - 53) (-1074) =
      e := by
    have hlt : ∀ {i j : Int}, (2 : ℚ) ^ i < 2 ^ j → i < j := fun h =>
      (zpow_lt_zpow_iff_right₀ (by norm_num)).1 h
    split
    · next h =>
      have h := hlt ((hone.1 h).trans_lt hhigh)
      rcases hlow with rfl | hlow
      · omega
      · have := hlt (hlow.trans_lt hbetween.2)
        omega
    · next h =>
      have h := not_le.1 (mt hone.2 h)
      have := hlt (hbetween.1.trans hhigh)
      rcases hlow with rfl | hlow
      · omega
      · have := hlt (hlow.trans_lt h)
        omega
  unfold nearestBits
  rw [if_neg hn.ne']
  simp only [← hk, hexp]

/-! ## Integers that are floats -/

/-- The integer is a float: no more bits than a mantissa has, up to zeros at the end. -/
def IsFloat (a : Int) : Prop := ∃ k j : Nat, a.natAbs = k * 2 ^ j ∧ k < 2 ^ 53

/-- A ratio that is a normal float. -/
lemma nearestBits_of_normal {n d m : Nat} {e : Int} (hd : 0 < d) (h : Normal m e)
    (heq : (n : ℚ) / d = m * 2 ^ e) : nearestBits n d = (e + 1074).toNat * Nat.pow 2 52 + m := by
  have hm : (0 : ℚ) < m := by exact_mod_cast h.pos
  have hdq : (0 : ℚ) < d := by exact_mod_cast hd
  have hn : 0 < n := by
    have hpos : (0 : ℚ) < n / d := by rw [heq]; positivity
    exact_mod_cast (div_pos_iff_of_pos_right hdq).1 hpos
  have hlow : (2 : ℚ) ^ (e + 52) ≤ n / d := by
    rw [heq, add_comm, zpow_add₀ two_ne_zero]
    gcongr
    exact_mod_cast h.1
  have hhigh : (n : ℚ) / d < 2 ^ (e + 53) := by
    rw [heq, add_comm e, zpow_add₀ two_ne_zero]
    gcongr
    exact_mod_cast h.2
  have hround : roundDiv (scaled 2 n d (-e)).1 (scaled 2 n d (-e)).2 = roundDiv m 1 := by
    have hpos := scaled_pos (n := n) two_pos hd (-e)
    have hposq : ((scaled 2 n d (-e)).2 : ℚ) ≠ 0 := by exact_mod_cast hpos.ne'
    have hratio := scaled_ratio 2 n d (-e)
    rw [heq, Nat.cast_ofNat, mul_assoc, ← zpow_add₀ two_ne_zero, add_neg_cancel, zpow_zero, mul_one,
      div_eq_iff hposq] at hratio
    refine roundDiv_eq_of_ratio hpos one_pos ?_
    rw [Nat.mul_one]
    exact_mod_cast hratio
  have hone : roundDiv m 1 = m := by simp [roundDiv, Nat.mod_one]
  rw [nearestBits_eq hn hd (.inr hlow) hhigh h.3, hround, hone]
  obtain ⟨hlow, hhigh, hle, hle'⟩ := h
  simp only [infinityBits, Nat.pow_eq]
  omega

/-- An integer that is a float, other than zero, as a normal float. -/
lemma IsFloat.exists_normal {a : Int} (h : IsFloat a) (ha : a ≠ 0) (hbound : a.natAbs ≤ 2 ^ 63) :
    ∃ m e, Normal m e ∧ -52 ≤ e ∧ e ≤ 63 ∧ (a.natAbs : ℚ) = m * 2 ^ e := by
  obtain ⟨k, j, hkj, hk⟩ := h
  have hpos : 0 < k := by
    rcases Nat.eq_zero_or_pos k with rfl | hpos
    · simp at hkj
      exact absurd hkj ha
    · exact hpos
  have hlog : k.log2 ≤ 52 := by
    have := (Nat.log2_lt hpos.ne').2 hk
    omega
  have hj : j ≤ 63 := by
    have hle : 2 ^ j ≤ 2 ^ 63 := (Nat.le_mul_of_pos_left _ hpos).trans (hkj ▸ hbound)
    exact (Nat.pow_le_pow_iff_right (by decide)).1 hle
  obtain ⟨hlow, hhigh⟩ := (Nat.log2_eq_iff hpos.ne').1 rfl
  refine ⟨k * 2 ^ (52 - k.log2), (j : Int) - (52 - k.log2 : Nat), ⟨?_, ?_, by omega, by omega⟩,
    by omega, by omega, ?_⟩
  · calc 2 ^ 52 = 2 ^ k.log2 * 2 ^ (52 - k.log2) := by rw [← Nat.pow_add]; congr 1; omega
      _ ≤ k * 2 ^ (52 - k.log2) := Nat.mul_le_mul_right _ hlow
  · calc k * 2 ^ (52 - k.log2) < 2 ^ (k.log2 + 1) * 2 ^ (52 - k.log2) := by gcongr
      _ = 2 ^ 53 := by rw [← Nat.pow_add]; congr 1; omega
  · rw [hkj, zpow_sub₀ two_ne_zero, zpow_natCast, zpow_natCast]
    push_cast
    field_simp

lemma ofRatio_of_normal {n d m : Nat} {e : Int} (negative : Bool) (hd : 0 < d) (h : Normal m e)
    (heq : (n : ℚ) / d = m * 2 ^ e) :
    ofRatio negative n d = Float.ofBits (.ofNat (finiteBits negative m e)) := by
  rw [ofRatio, nearestBits_of_normal hd h heq]
  rfl

/-- The quotient of the mantissas has as many bits as a mantissa, or one more. -/
lemma exists_log2_quotient {m n : Nat} {e f : Int} (hm : Normal m e) (hn : Normal n f) :
    ∃ k ≤ 1, (m * 2 ^ 53 / n).log2 = 52 + k := by
  have hlow : 2 ^ 52 ≤ m * 2 ^ 53 / n := by
    rw [Nat.le_div_iff_mul_le hn.pos]
    exact Nat.mul_le_mul hm.1 hn.2.le
  have hhigh : m * 2 ^ 53 / n < 2 ^ 54 := by
    rw [Nat.div_lt_iff_lt_mul hn.pos]
    have := hm.2
    have := hn.1
    omega
  have h52 := (Nat.le_log2 (show m * 2 ^ 53 / n ≠ 0 by omega)).2 hlow
  have h54 := (Nat.log2_lt (show m * 2 ^ 53 / n ≠ 0 by omega)).2 hhigh
  exact ⟨(m * 2 ^ 53 / n).log2 - 52, by omega, by omega⟩

/-- The quotient of two normal floats is the float nearest to the ratio of their values. -/
lemma div_normal {x y : Bool} {m n p q : Nat} {e f : Int} (hm : Normal m e) (hn : Normal n f)
    (hp : (p : ℚ) = m * 2 ^ e) (hq : (q : ℚ) = n * 2 ^ f) (he : -900 ≤ e - f) (he' : e - f ≤ 900) :
    Float.ofBits (.ofNat (finiteBits x m e)) / Float.ofBits (.ofNat (finiteBits y n f)) =
      ofRatio (x != y) p q := by
  obtain ⟨k, hk, hlog⟩ := exists_log2_quotient hm hn
  have hmpos : (0 : ℚ) < m := by exact_mod_cast hm.pos
  have hnpos : (0 : ℚ) < n := by exact_mod_cast hn.pos
  have hppos : 0 < p := by
    have : (0 : ℚ) < p := by rw [hp]; positivity
    exact_mod_cast this
  have hqpos : 0 < q := by
    have : (0 : ℚ) < q := by rw [hq]; positivity
    exact_mod_cast this
  -- the ratio, and the quotient of the mantissas as it is computed
  have hratio : (p : ℚ) / q = ((m * 2 ^ 53 : Nat) : ℚ) / n * 2 ^ (e - f - 53) := by
    rw [hp, hq, zpow_sub₀ two_ne_zero, zpow_sub₀ two_ne_zero]
    push_cast
    field_simp
  obtain ⟨hlow, hhigh⟩ := (Nat.log2_eq_iff (by rintro h; rw [h] at hlog; simp at hlog; omega)).1 hlog
  rw [Nat.le_div_iff_mul_le hn.pos] at hlow
  rw [Nat.div_lt_iff_lt_mul hn.pos] at hhigh
  have hlow' : (2 : ℚ) ^ (e - f - 53 + k + 52) ≤ p / q := by
    rw [hratio, show e - f - 53 + k + 52 = ((52 + k : Nat) : Int) + (e - f - 53) by omega,
      zpow_add₀ two_ne_zero, zpow_natCast]
    gcongr
    rw [le_div_iff₀ hnpos]
    exact_mod_cast hlow
  have hhigh' : (p : ℚ) / q < 2 ^ (e - f - 53 + k + 53) := by
    rw [hratio, show e - f - 53 + k + 53 = ((52 + k + 1 : Nat) : Int) + (e - f - 53) by omega,
      zpow_add₀ two_ne_zero, zpow_natCast]
    gcongr
    rw [div_lt_iff₀ hnpos]
    exact_mod_cast hhigh
  have hround : roundDiv (scaled 2 p q (-(e - f - 53 + k))).1 (scaled 2 p q (-(e - f - 53 + k))).2 =
      roundDiv (m * 2 ^ 53) (n * 2 ^ k) := by
    have hscaled := scaled_pos (n := p) two_pos hqpos (-(e - f - 53 + k))
    refine roundDiv_eq_of_ratio hscaled (Nat.mul_pos hn.pos (by positivity)) ?_
    have hsame := scaled_ratio 2 p q (-(e - f - 53 + k))
    rw [hratio, Nat.cast_ofNat, mul_assoc, ← zpow_add₀ two_ne_zero,
      show e - f - 53 + -(e - f - 53 + k) = -(k : Int) by omega, zpow_neg, zpow_natCast,
      ← div_eq_mul_inv, div_div, div_eq_div_iff (by exact_mod_cast hscaled.ne') (by positivity)] at hsame
    exact_mod_cast hsame
  have hsmall : roundDiv (m * 2 ^ 53) (n * 2 ^ k) ≤ 2 ^ 53 := by
    have hbounds := (roundDiv_bounds (m * 2 ^ 53) (n * 2 ^ k)).2
    have hdiv : m * 2 ^ 53 / (n * 2 ^ k) < 2 ^ 53 := by
      rw [Nat.div_lt_iff_lt_mul (Nat.mul_pos hn.pos (by positivity))]
      calc m * 2 ^ 53 < 2 ^ (52 + k + 1) * n := hhigh
        _ = 2 ^ 53 * (n * 2 ^ k) := by ring
    omega
  rw [div_finiteBits hm hn hlog (by omega) (by omega), ofRatio,
    nearestBits_eq hppos hqpos (.inr hlow') hhigh' (by omega), hround]
  rw [min_eq_left]
  · rfl
  · simp only [infinityBits, Nat.pow_eq]
    omega

/-! ## Words -/

lemma log2_le_of_le {n : Nat} (h : n ≤ 2 ^ 63) : n.log2 ≤ 63 := by
  rcases Nat.eq_zero_or_pos n with rfl | hn
  · simp
  · have := (Nat.log2_lt hn.ne').2 (h.trans_lt (show 2 ^ 63 < 2 ^ 64 by norm_num))
    omega

/-- The exponent of a ratio of integers of 64 bits. -/
lemma exists_exponent {n d : Nat} (hn : 0 < n) (hd : 0 < d) (hn' : n ≤ 2 ^ 63) (hd' : d ≤ 2 ^ 63) :
    ∃ e : Int, -116 ≤ e ∧ e ≤ 11 ∧ (2 : ℚ) ^ (e + 52) ≤ n / d ∧ (n : ℚ) / d < 2 ^ (e + 53) := by
  obtain ⟨hlow, hhigh⟩ := ratio_between hn hd
  have hlogn := log2_le_of_le hn'
  have hlogd := log2_le_of_le hd'
  set k : Int := (n.log2 : Int) - d.log2
  rcases le_or_gt ((2 : ℚ) ^ k) (n / d) with h | h
  · refine ⟨k - 52, by omega, by omega, ?_, ?_⟩
    · rwa [show k - 52 + 52 = k by omega]
    · rwa [show k - 52 + 53 = k + 1 by omega]
  · refine ⟨k - 53, by omega, by omega, ?_, ?_⟩
    · rw [show k - 53 + 52 = k - 1 by omega]
      exact hlow.le
    · rwa [show k - 53 + 53 = k by omega]

/-- A ratio of integers of 64 bits is nearest to a normal float. -/
lemma exists_normal_nearestBits {n d : Nat} (hn : 0 < n) (hd : 0 < d) (hn' : n ≤ 2 ^ 63)
    (hd' : d ≤ 2 ^ 63) :
    ∃ m e, Normal m e ∧ nearestBits n d = (e + 1074).toNat * Nat.pow 2 52 + m := by
  obtain ⟨e, he, he', hlow, hhigh⟩ := exists_exponent hn hd hn' hd'
  have hscaled := scaled_pos (n := n) two_pos hd (-e)
  have hscaledq : (0 : ℚ) < (scaled 2 n d (-e)).2 := by exact_mod_cast hscaled
  have hratio : (n : ℚ) / d = (scaled 2 n d (-e)).1 / (scaled 2 n d (-e)).2 * 2 ^ e := by
    rw [scaled_ratio, Nat.cast_ofNat, mul_assoc, ← zpow_add₀ two_ne_zero, neg_add_cancel,
      zpow_zero, mul_one]
  have hdiv : 2 ^ 52 ≤ (scaled 2 n d (-e)).1 / (scaled 2 n d (-e)).2 ∧
      (scaled 2 n d (-e)).1 / (scaled 2 n d (-e)).2 < 2 ^ 53 := by
    rw [hratio, add_comm e, zpow_add₀ two_ne_zero] at hlow hhigh
    have hlow := le_of_mul_le_mul_right hlow (by positivity)
    have hhigh := lt_of_mul_lt_mul_right hhigh (by positivity)
    rw [le_div_iff₀ hscaledq] at hlow
    rw [div_lt_iff₀ hscaledq] at hhigh
    rw [Nat.le_div_iff_mul_le hscaled, Nat.div_lt_iff_lt_mul hscaled]
    exact ⟨by exact_mod_cast hlow, by exact_mod_cast hhigh⟩
  have hbounds := roundDiv_bounds (scaled 2 n d (-e)).1 (scaled 2 n d (-e)).2
  rw [nearestBits_eq hn hd (.inr hlow) hhigh (by omega)]
  generalize roundDiv (scaled 2 n d (-e)).1 (scaled 2 n d (-e)).2 = r at hbounds ⊢
  by_cases hr : r = 2 ^ 53
  · refine ⟨2 ^ 52, e + 1, ⟨by omega, by omega, by omega, by omega⟩, ?_⟩
    simp only [infinityBits, Nat.pow_eq, hr]
    omega
  · refine ⟨r, e, ⟨by omega, by omega, by omega, by omega⟩, ?_⟩
    simp only [infinityBits, Nat.pow_eq]
    omega

/-- Ratios of integers of 64 bits are in the range of floats. -/
lemma nearestBits_ne_infinityBits {n d : Nat} (hd : 0 < d) (hn' : n ≤ 2 ^ 63) (hd' : d ≤ 2 ^ 63) :
    nearestBits n d ≠ infinityBits := by
  rcases Nat.eq_zero_or_pos n with rfl | hn
  · simp [nearestBits, infinityBits]
  · obtain ⟨m, e, ⟨hlow, hhigh, he, he'⟩, hbits⟩ := exists_normal_nearestBits hn hd hn' hd'
    rw [hbits]
    simp only [infinityBits, Nat.pow_eq]
    omega

/-- A ratio of integers of 64 bits other than zero is not rounded to zero. -/
lemma ofRatio_ne_zero {n d : Nat} (negative : Bool) (hn : 0 < n) (hd : 0 < d) (hn' : n ≤ 2 ^ 63)
    (hd' : d ≤ 2 ^ 63) : (ofRatio negative n d == 0) = false := by
  obtain ⟨m, e, hnormal, hbits⟩ := exists_normal_nearestBits hn hd hn' hd'
  have hfloat : ofRatio negative n d = Float.ofBits (.ofNat (finiteBits negative m e)) := by
    rw [ofRatio, hbits]
    rfl
  have hbeq : (ofRatio negative n d == 0) =
      UnpackedFloat.beq (ofRatio negative n d).toModel.unpack (.zero .positive) := rfl
  rw [hbeq, hfloat, unpack_ofBits hnormal]
  cases negative <;> rfl

lemma ofRatio_zero (negative : Bool) (d : Nat) :
    ofRatio negative 0 d = Float.ofModel (Float.Model.pack (.zero (signOf negative))) := by
  have hbits : nearestBits 0 d = 0 := rfl
  rw [ofRatio, hbits]
  cases negative <;> rfl

/-- Where integers of 64 bits are floats, dividing the floats gives the float nearest to their
quotient. -/
theorem div_ofRatio {a b : Int} (ha : IsFloat a) (hb : IsFloat b) (ha' : a.natAbs ≤ 2 ^ 63)
    (hb' : b.natAbs ≤ 2 ^ 63) (hne : b ≠ 0) :
    ofRatio (a < 0) a.natAbs 1 / ofRatio (b < 0) b.natAbs 1 =
      ofRatio (decide (a < 0) != decide (b < 0)) a.natAbs b.natAbs := by
  obtain ⟨n, f, hn, hf, hf', hbn⟩ := hb.exists_normal hne hb'
  rw [ofRatio_of_normal (decide (b < 0)) one_pos hn (by rw [Nat.cast_one, div_one, hbn])]
  rcases eq_or_ne a 0 with rfl | hza
  · -- a zero keeps the sign of the divisor
    change Float.ofModel (Float.Model.pack (UnpackedFloat.div Format.binary64 (.zero .positive)
      (Float.ofBits _).toModel.unpack)) = _
    rw [unpack_ofBits hn, show Int.natAbs 0 = 0 from rfl, ofRatio_zero]
    cases decide (b < 0) <;> rfl
  · obtain ⟨m, e, hm, he, he', ham⟩ := ha.exists_normal hza ha'
    rw [ofRatio_of_normal (decide (a < 0)) one_pos hm (by rw [Nat.cast_one, div_one, ham])]
    exact div_normal hm hn ham hbn (by omega) (by omega)

end MatScript.Number

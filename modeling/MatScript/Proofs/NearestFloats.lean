import Mathlib
import MatScript.Number.Shortest
import MatScript.Proofs.FloatQuotients

/-! The float of a decimal number. It is the nearest one: no finite float is nearer, of two that
are equally near it is the one whose last bit is zero, and a number beyond the largest finite float
and half of its last place gives infinity. -/
namespace MatScript.Number

open Float.Model Float.Model.UnpackedFloat

/-! ## Values of floats -/

/-- The number that an unpacked float stands for, if it is finite. -/
def unpackedValue? : UnpackedFloat → Option ℚ
  | .zero _ => some 0
  | .finite .positive m e _ => some (m * 2 ^ e)
  | .finite .negative m e _ => some (-(m * 2 ^ e))
  | .infinity _ => none
  | .notANumber => none

def value? (x : Float) : Option ℚ := unpackedValue? x.toModel.unpack

/-- Half a place above the largest finite float. -/
def overflowBound : ℚ := (2 ^ 54 - 1) * 2 ^ (970 : ℤ)

/-- The float nearest to a number that is not negative. -/
structure IsNearest (q : ℚ) (x : Float) : Prop where
  positive : x.toBits.toNat < 2 ^ 63
  overflow : overflowBound ≤ q → x.toModel.unpack = .infinity .positive
  nearest : q < overflowBound → ∃ v, value? x = some v ∧ ∀ y w, value? y = some w →
    |q - v| ≤ |q - w| ∧ (|q - v| = |q - w| → w = v ∨ Even x.toBits.toNat)

def Binary.value (b : Binary) : ℚ :=
  if b.negative then -(b.mantissa * 2 ^ b.exponent) else b.mantissa * 2 ^ b.exponent

lemma Binary.abs_value (b : Binary) : |b.value| = b.mantissa * 2 ^ b.exponent := by
  unfold Binary.value
  split
  · rw [abs_neg, abs_of_nonneg (by positivity)]
  · rw [abs_of_nonneg (by positivity)]

lemma toNat_unpackExponent (b : BitVec 64) :
    (@unpackExponent Format.binary64 b).toNat = b.toNat / 2 ^ 52 % 2 ^ 11 := by
  simp [unpackExponent, BitVec.extractLsb_toNat, Nat.shiftRight_eq_div_pow]

lemma toNat_unpackMantissa (b : BitVec 64) :
    (@unpackMantissa Format.binary64 b).toNat = b.toNat % 2 ^ 52 := by
  simp [unpackMantissa, BitVec.extractLsb_toNat]

lemma toNat_unpackSign (b : BitVec 64) :
    (@unpackSign Format.binary64 b).toNat = b.toNat / 2 ^ 63 := by
  have hb := b.isLt
  simp [unpackSign, BitVec.extractLsb_toNat, Nat.shiftRight_eq_div_pow]
  omega

lemma ofBitVec_unpackSign (b : BitVec 64) :
    Sign.ofBitVec (@unpackSign Format.binary64 b) = signOf (decide (2 ^ 63 ≤ b.toNat)) := by
  have hsign := toNat_unpackSign b
  have hb := b.isLt
  by_cases h : 2 ^ 63 ≤ b.toNat
  · have hone : @unpackSign Format.binary64 b = 1#1 := by
      apply BitVec.eq_of_toNat_eq
      rw [hsign]
      simp
      omega
    rw [hone, decide_eq_true h]
    rfl
  · have hzero : @unpackSign Format.binary64 b = 0#1 := by
      apply BitVec.eq_of_toNat_eq
      rw [hsign]
      simp
      omega
    rw [hzero, decide_eq_false h]
    rfl

lemma unpackedValue?_finite (negative : Bool) (m : Nat) (e : Int) (hm : 0 < m) :
    unpackedValue? (.finite (signOf negative) m e hm) = some (Binary.value ⟨negative, m, e⟩) := by
  cases negative <;> rfl

/-- The parts that are read from the bits of a float give its value. -/
lemma value?_eq_decode? (x : Float) : value? x = (decode? x).map Binary.value := by
  have hexp : (@unpackExponent Format.binary64 x.toBits.toBitVec).toNat =
      x.toBits.toNat / 2 ^ 52 % 2 ^ 11 := toNat_unpackExponent _
  have hman : (@unpackMantissa Format.binary64 x.toBits.toBitVec).toNat =
      x.toBits.toNat % 2 ^ 52 := toNat_unpackMantissa _
  have hones : @unpackExponent Format.binary64 x.toBits.toBitVec = -1#11 ↔
      x.toBits.toNat / 2 ^ 52 % 2 ^ 11 = 2047 := by
    rw [← BitVec.toNat_inj, hexp]
    rfl
  have hzeros : @unpackExponent Format.binary64 x.toBits.toBitVec = 0#11 ↔
      x.toBits.toNat / 2 ^ 52 % 2 ^ 11 = 0 := by
    rw [← BitVec.toNat_inj, hexp]
    rfl
  have hempty : @unpackMantissa Format.binary64 x.toBits.toBitVec = 0#52 ↔
      x.toBits.toNat % 2 ^ 52 = 0 := by
    rw [← BitVec.toNat_inj, hman]
    rfl
  change unpackedValue? (UnpackedFloat.unpack Format.binary64 x.toBits.toBitVec) = _
  unfold UnpackedFloat.unpack decode?
  simp only [Nat.pow_eq]
  by_cases h : x.toBits.toNat / 2 ^ 52 % 2 ^ 11 = 2047
  · rw [if_pos (hones.2 h), if_pos h]
    split <;> rfl
  rw [if_neg (mt hones.1 h), if_neg h]
  by_cases h : x.toBits.toNat / 2 ^ 52 % 2 ^ 11 = 0
  · rw [if_pos (hzeros.2 h), if_pos h]
    by_cases hm : x.toBits.toNat % 2 ^ 52 = 0
    · rw [dif_pos (hempty.2 hm), hm]
      simp [unpackedValue?, Binary.value]
    · rw [dif_neg (mt hempty.1 hm), ofBitVec_unpackSign, unpackedValue?_finite, hman, hexp, h]
      rfl
  · rw [if_neg (mt hzeros.1 h), if_neg h, ofBitVec_unpackSign, unpackedValue?_finite, hexp]
    have hlong : (1#1 ++ @unpackMantissa Format.binary64 x.toBits.toBitVec).toNat =
        x.toBits.toNat % 2 ^ 52 + 2 ^ 52 := by
      rw [BitVec.toNat_append, ← Nat.shiftLeft_add_eq_or_of_lt (BitVec.isLt _), hman, Nat.add_comm]
      rfl
    rw [hlong]
    rfl

/-- Mantissas have at most 53 bits, and exponents a lower bound. -/
lemma decode?_bounds {x : Float} {b : Binary} (h : decode? x = some b) :
    b.mantissa < 2 ^ 53 ∧ -1074 ≤ b.exponent := by
  unfold decode? at h
  simp only [Nat.pow_eq] at h
  split_ifs at h with hone hzero
  · obtain rfl := Option.some.inj h
    exact ⟨by dsimp only; omega, le_rfl⟩
  · obtain rfl := Option.some.inj h
    dsimp only
    omega

/-- The bits up to those of infinity are the bits of a float. -/
lemma toBits_ofBits {bits : Nat} (h : bits ≤ infinityBits) :
    (Float.ofBits (.ofNat bits)).toBits.toNat = bits := by
  have hlt : bits < 2 ^ 64 := h.trans_lt (by decide)
  have hnat : (BitVec.ofNat 64 bits).toNat = bits := by
    rw [BitVec.toNat_ofNat, Nat.mod_eq_of_lt hlt]
  have hvalid : Format.binary64.Valid (BitVec.ofNat 64 bits) := by
    constructor
    intro hexp hman
    -- only infinity has an exponent of ones among these
    have hexp := congrArg BitVec.toNat hexp
    rw [toNat_unpackExponent, hnat] at hexp
    have hman : bits % 2 ^ 52 ≠ 0 := by
      intro hzero
      apply hman
      apply BitVec.eq_of_toNat_eq
      rw [toNat_unpackMantissa, hnat, hzero]
      rfl
    have hexp : bits / 2 ^ 52 % 2 ^ 11 = 2047 := hexp
    unfold infinityBits at h
    omega
  change (UnpackedFloat.pack Format.binary64
    (UnpackedFloat.unpack Format.binary64 (BitVec.ofNat 64 bits))).toNat = bits
  rw [pack_unpack_of_valid hvalid, hnat]

/-- The value of a mantissa and an exponent, also of a mantissa that has been rounded up to one
more bit. -/
lemma value?_ofBits {m : Nat} {e : Int} (he : -1074 ≤ e) (hlow : e = -1074 ∨ 2 ^ 52 ≤ m)
    (hhigh : m ≤ 2 ^ 53) (h : (e + 1074).toNat * 2 ^ 52 + m < infinityBits) :
    value? (Float.ofBits (.ofNat ((e + 1074).toNat * 2 ^ 52 + m))) = some ((m : ℚ) * 2 ^ e) := by
  rw [value?_eq_decode?]
  unfold decode?
  rw [toBits_ofBits h.le]
  simp only [Nat.pow_eq]
  unfold infinityBits at h
  rcases Nat.lt_or_ge m (2 ^ 52) with hm | hm
  · obtain rfl : e = -1074 := by omega
    have hman : ((-1074 + 1074 : Int).toNat * 2 ^ 52 + m) % 2 ^ 52 = m := by omega
    rw [if_neg (by omega), if_pos (by omega), decide_eq_false (by omega), Option.map_some, hman]
    rfl
  rw [if_neg (by omega), if_neg (by omega), decide_eq_false (by omega), Option.map_some]
  rcases hhigh.lt_or_eq with hhigh | rfl
  · have hman : ((e + 1074).toNat * 2 ^ 52 + m) % 2 ^ 52 + 2 ^ 52 = m := by omega
    have hexp : ((((e + 1074).toNat * 2 ^ 52 + m) / 2 ^ 52 % 2 ^ 11 : Nat) : Int) - 1075 = e := by
      omega
    simp only [hman, hexp, Binary.value]
    rfl
  · have hman : ((e + 1074).toNat * 2 ^ 52 + 2 ^ 53) % 2 ^ 52 + 2 ^ 52 = 2 ^ 52 := by omega
    have hexp : ((((e + 1074).toNat * 2 ^ 52 + 2 ^ 53) / 2 ^ 52 % 2 ^ 11 : Nat) : Int) - 1075 =
        e + 1 := by
      omega
    simp only [hman, hexp, Binary.value, zpow_add₀ (two_ne_zero' ℚ)]
    norm_num
    ring

/-! ## Rounding -/

/-- The rounded quotient is at most a half away, and even where it is a half away. -/
lemma abs_sub_roundDiv_le {n d : Nat} (hd : 0 < d) :
    |(n : ℚ) / d - roundDiv n d| ≤ 1 / 2 ∧
      (|(n : ℚ) / d - roundDiv n d| = 1 / 2 → Even (roundDiv n d)) := by
  have hdq : (0 : ℚ) < d := by exact_mod_cast hd
  have hsplit : (n : ℚ) / d = (n / d : Nat) + (n % d : Nat) / d := by
    rw [eq_comm, ← mul_left_inj' hdq.ne', add_mul, div_mul_cancel₀ _ hdq.ne',
      div_mul_cancel₀ _ hdq.ne']
    exact_mod_cast Nat.div_add_mod' n d
  have hnonneg : (0 : ℚ) ≤ (n % d : Nat) / d := by positivity
  have hone : ((n % d : Nat) : ℚ) / d < 1 := by
    rw [div_lt_one hdq]
    exact_mod_cast Nat.mod_lt n hd
  have hlt : 2 * (n % d) < d ↔ ((n % d : Nat) : ℚ) / d < 1 / 2 := by
    rw [div_lt_div_iff₀ hdq two_pos, one_mul, mul_comm]
    exact_mod_cast Iff.rfl
  have hgt : d < 2 * (n % d) ↔ 1 / 2 < ((n % d : Nat) : ℚ) / d := by
    rw [div_lt_div_iff₀ two_pos hdq, one_mul, mul_comm _ (2 : ℚ)]
    exact_mod_cast Iff.rfl
  rw [hsplit]
  unfold roundDiv
  simp only [hlt, hgt]
  generalize ((n % d : Nat) : ℚ) / d = r at hnonneg hone ⊢
  generalize n / d = k
  rcases lt_trichotomy r (1 / 2) with h | rfl | h
  · rw [if_pos h, add_sub_cancel_left, abs_of_nonneg hnonneg]
    exact ⟨h.le, fun heq => absurd heq h.ne⟩
  · rw [if_neg (lt_irrefl _), if_neg (lt_irrefl _)]
    rcases Nat.even_or_odd k with hk | hk
    · rw [Nat.even_iff.1 hk, add_zero]
      norm_num
      exact hk
    · rw [Nat.odd_iff.1 hk]
      push_cast
      rw [add_sub_add_left_eq_sub]
      norm_num
      exact hk.add_one
  · rw [if_neg h.not_gt, if_pos h]
    push_cast
    rw [add_sub_add_left_eq_sub, abs_of_neg (by linarith)]
    exact ⟨by linarith, fun heq => absurd heq (by linarith)⟩

/-- No integer is nearer than the rounded quotient, and it is even if another one is as near. -/
lemma roundDiv_nearest {n d : Nat} (hd : 0 < d) (j : ℤ) :
    |(n : ℚ) / d - roundDiv n d| ≤ |(n : ℚ) / d - j| ∧
      (|(n : ℚ) / d - roundDiv n d| = |(n : ℚ) / d - j| →
        j = roundDiv n d ∨ Even (roundDiv n d)) := by
  obtain ⟨hhalf, heven⟩ := abs_sub_roundDiv_le (n := n) hd
  by_cases hj : j = roundDiv n d
  · subst hj
    exact ⟨le_rfl, fun _ => .inl rfl⟩
  have hfar : (1 : ℚ) ≤ |(roundDiv n d : ℚ) - j| := by
    have hne : (roundDiv n d : ℤ) - j ≠ 0 := sub_ne_zero.2 (Ne.symm hj)
    exact_mod_cast Int.one_le_abs hne
  have htri : |(roundDiv n d : ℚ) - j| ≤ |(n : ℚ) / d - roundDiv n d| + |(n : ℚ) / d - j| := by
    rw [abs_sub_comm ((n : ℚ) / d) (roundDiv n d)]
    exact abs_sub_le _ _ _
  refine ⟨by linarith, fun heq => .inr (heven ?_)⟩
  linarith

/-- A float is a multiple of every smaller power of two. -/
lemma Binary.exists_multiple (b : Binary) {e : Int} (he : e ≤ b.exponent) :
    ∃ j : ℤ, b.value = j * 2 ^ e := by
  obtain ⟨k, hk⟩ := Int.eq_ofNat_of_zero_le (sub_nonneg.2 he)
  have hpow : (2 : ℚ) ^ b.exponent = 2 ^ k * 2 ^ e := by
    rw [← zpow_natCast, ← zpow_add₀ two_ne_zero, ← hk, sub_add_cancel]
  unfold Binary.value
  split
  · exact ⟨-(b.mantissa * 2 ^ k), by rw [hpow]; push_cast; ring⟩
  · exact ⟨b.mantissa * 2 ^ k, by rw [hpow]; push_cast; ring⟩

/-- A float with a smaller exponent is less than a full mantissa. -/
lemma Binary.abs_value_lt {b : Binary} {e : Int} (hm : b.mantissa < 2 ^ 53) (he : b.exponent < e) :
    |b.value| < 2 ^ 52 * 2 ^ e :=
  calc |b.value| = b.mantissa * 2 ^ b.exponent := b.abs_value
    _ < 2 ^ 53 * 2 ^ b.exponent := by
      gcongr
      exact_mod_cast hm
    _ ≤ 2 ^ 53 * 2 ^ (e - 1) := by
      gcongr
      · norm_num
      · omega
    _ = 2 ^ 52 * 2 ^ e := by rw [zpow_sub_one₀ two_ne_zero]; ring

/-- A ratio with a full mantissa, or with the least exponent, has no nearer float than the rounded
mantissa. -/
lemma roundDiv_nearest_float {n d : Nat} {e : Int} (hd : 0 < d)
    (hlow : e = -1074 ∨ (2 : ℚ) ^ 52 ≤ n / d) {y : Float} {w : ℚ} (hy : value? y = some w) :
    |(n : ℚ) / d * 2 ^ e - roundDiv n d * 2 ^ e| ≤ |(n : ℚ) / d * 2 ^ e - w| ∧
      (|(n : ℚ) / d * 2 ^ e - roundDiv n d * 2 ^ e| = |(n : ℚ) / d * 2 ^ e - w| →
        w = roundDiv n d * 2 ^ e ∨ Even (roundDiv n d)) := by
  have hpos : (0 : ℚ) < 2 ^ e := by positivity
  rw [value?_eq_decode?] at hy
  obtain ⟨b, hb, rfl⟩ := Option.map_eq_some_iff.1 hy
  obtain ⟨hmantissa, hexponent⟩ := decode?_bounds hb
  have hscale : ∀ r : ℚ, |(n : ℚ) / d * 2 ^ e - r * 2 ^ e| = |(n : ℚ) / d - r| * 2 ^ e := by
    intro r
    rw [← sub_mul, abs_mul, abs_of_pos hpos]
  rcases le_or_gt e b.exponent with he | he
  · -- the mantissas are compared at the same power of two
    obtain ⟨j, hj⟩ := b.exists_multiple he
    obtain ⟨hle, htie⟩ := roundDiv_nearest (n := n) hd j
    rw [hj, hscale, hscale]
    refine ⟨by gcongr, fun heq => ?_⟩
    rcases htie (mul_right_cancel₀ hpos.ne' heq) with rfl | heven
    · exact .inl (by push_cast; rfl)
    · exact .inr heven
  · -- a full mantissa is as near as the rounded one at most, and the other float is less
    have hfull : (2 : ℚ) ^ 52 ≤ n / d := hlow.resolve_left (by omega)
    have hnear : |(n : ℚ) / d - roundDiv n d| ≤ n / d - 2 ^ 52 := by
      have hcast : ((2 ^ 52 : ℤ) : ℚ) = 2 ^ 52 := by norm_num
      have hle := (roundDiv_nearest (n := n) hd (2 ^ 52)).1
      rwa [hcast, abs_of_nonneg (sub_nonneg.2 hfull)] at hle
    have hsmall : |b.value| < 2 ^ 52 * 2 ^ e := Binary.abs_value_lt hmantissa he
    have hfar : |(n : ℚ) / d * 2 ^ e - roundDiv n d * 2 ^ e| < |(n : ℚ) / d * 2 ^ e - b.value| := by
      calc |(n : ℚ) / d * 2 ^ e - roundDiv n d * 2 ^ e| ≤ (n / d - 2 ^ 52) * 2 ^ e := by
            rw [hscale]
            gcongr
        _ < n / d * 2 ^ e - b.value := by
          have := le_abs_self b.value
          linarith
        _ ≤ |(n : ℚ) / d * 2 ^ e - b.value| := le_abs_self _
    exact ⟨hfar.le, fun heq => absurd heq hfar.ne⟩

/-- A rounded mantissa keeps its length, or has one more bit. -/
lemma roundDiv_between {t : ℚ} {m : Nat} {e : Int} (hlow : e = -1074 ∨ 2 ^ 52 ≤ t) (hhigh : t < 2 ^ 53)
    (hhalf : |t - m| ≤ 1 / 2) : (e = -1074 ∨ 2 ^ 52 ≤ m) ∧ m ≤ 2 ^ 53 := by
  obtain ⟨hbelow, habove⟩ := abs_le.1 hhalf
  constructor
  · refine hlow.imp_right fun hlow => ?_
    have : (2 : ℚ) ^ 52 < m + 1 := by linarith
    exact Nat.le_of_lt_succ (by exact_mod_cast this)
  · have : (m : ℚ) < 2 ^ 53 + 1 := by linarith
    exact Nat.le_of_lt_succ (by exact_mod_cast this)

/-- A mantissa is rounded up to one more bit from half a place below on, where the tie goes up. -/
lemma full_le_iff {t : ℚ} {m : Nat} (hhalf : |t - m| ≤ 1 / 2) (heven : |t - m| = 1 / 2 → Even m) :
    2 ^ 53 ≤ m ↔ 2 ^ 53 - 1 / 2 ≤ t := by
  obtain ⟨hbelow, habove⟩ := abs_le.1 hhalf
  constructor
  · intro h
    have hm : (2 : ℚ) ^ 53 ≤ m := by exact_mod_cast h
    linarith
  · intro h
    by_contra hlt
    -- an odd mantissa that is a half away is not the rounded one
    have hodd : m = 2 ^ 53 - 1 := by
      have : 2 ^ 53 ≤ m + 1 := by exact_mod_cast (show (2 : ℚ) ^ 53 ≤ m + 1 by linarith)
      omega
    have hcast : (m : ℚ) = 2 ^ 53 - 1 := by rw [hodd]; norm_num
    have hm : Even m := by
      apply heven
      rw [abs_of_nonneg (by linarith)]
      linarith
    rw [hodd] at hm
    revert hm
    decide

/-- The rounded mantissa and its exponent have the bits of infinity or later ones where the number
is out of range. -/
lemma infinityBits_le_iff {t : ℚ} {m : Nat} {e : Int} (hlow : e = -1074 ∨ 2 ^ 52 ≤ t)
    (hhigh : t < 2 ^ 53) (hhalf : |t - m| ≤ 1 / 2) (heven : |t - m| = 1 / 2 → Even m) :
    infinityBits ≤ (e + 1074).toNat * 2 ^ 52 + m ↔ overflowBound ≤ t * 2 ^ e := by
  obtain ⟨hmlow, hmhigh⟩ := roundDiv_between hlow hhigh hhalf
  have hbase : (0 : ℚ) < 2 ^ (970 : ℤ) := by positivity
  unfold infinityBits overflowBound
  rcases lt_trichotomy e 971 with he | rfl | he
  · have hsmall : t * 2 ^ e < (2 ^ 54 - 1) * 2 ^ (970 : ℤ) := by
      have hpow : (2 : ℚ) ^ e ≤ 2 ^ (970 : ℤ) := zpow_le_zpow_right₀ one_le_two (by omega)
      calc t * 2 ^ e < 2 ^ 53 * 2 ^ e := by gcongr
        _ ≤ 2 ^ 53 * 2 ^ (970 : ℤ) := by gcongr
        _ < (2 ^ 54 - 1) * 2 ^ (970 : ℤ) := by gcongr; norm_num
    refine iff_of_false ?_ (not_le.2 hsmall)
    omega
  · have hbound : (2 ^ 54 - 1 : ℚ) * 2 ^ (970 : ℤ) ≤ t * 2 ^ (971 : ℤ) ↔ 2 ^ 53 - 1 / 2 ≤ t := by
      rw [show (971 : ℤ) = 1 + 970 by norm_num, zpow_add₀ two_ne_zero, zpow_one, ← mul_assoc,
        mul_le_mul_iff_left₀ hbase]
      constructor <;> intro h <;> linarith
    rw [hbound, ← full_le_iff hhalf heven]
    omega
  · have hfull : (2 : ℚ) ^ 52 ≤ t := hlow.resolve_left (by omega)
    have hm : 2 ^ 52 ≤ m := hmlow.resolve_left (by omega)
    have hlarge : (2 ^ 54 - 1 : ℚ) * 2 ^ (970 : ℤ) ≤ t * 2 ^ e := by
      have hpow : (2 : ℚ) ^ (2 + 970 : ℤ) ≤ 2 ^ e := zpow_le_zpow_right₀ one_le_two (by omega)
      rw [zpow_add₀ two_ne_zero] at hpow
      calc (2 ^ 54 - 1 : ℚ) * 2 ^ (970 : ℤ) ≤ 2 ^ 52 * (2 ^ (2 : ℤ) * 2 ^ (970 : ℤ)) := by
            rw [← mul_assoc]
            gcongr
            norm_num
        _ ≤ 2 ^ 52 * 2 ^ e := by gcongr
        _ ≤ t * 2 ^ e := by gcongr
    refine iff_of_true ?_ hlarge
    omega

/-- The exponent at which a number is rounded. -/
lemma exists_rounding_exponent {q : ℚ} (hq : 0 < q) :
    ∃ e : ℤ, -1074 ≤ e ∧ q < 2 ^ (e + 53) ∧ (e = -1074 ∨ 2 ^ (e + 52) ≤ q) := by
  obtain ⟨k, hlow, hhigh⟩ := exists_mem_Ico_zpow hq one_lt_two
  rcases le_or_gt (-1074) (k - 52) with hk | hk
  · refine ⟨k - 52, hk, ?_, .inr ?_⟩
    · rwa [show k - 52 + 53 = k + 1 by omega]
    · rwa [sub_add_cancel]
  · exact ⟨-1074, le_rfl, hhigh.trans_le (zpow_le_zpow_right₀ one_le_two (by omega)), .inl rfl⟩

/-! ## Nearest floats -/

/-- A number of at most half the least positive float is nearest to zero. -/
lemma isNearest_zero {q : ℚ} (hq : 0 ≤ q) (hsmall : q ≤ 2 ^ (-1075 : ℤ)) : IsNearest q 0 where
  positive := by decide
  overflow := by
    intro h
    have hone : (2 : ℚ) ^ (-1075 : ℤ) ≤ 1 := zpow_le_one_of_nonpos₀ one_le_two (by norm_num)
    have hbase : (1 : ℚ) ≤ 2 ^ (970 : ℤ) := one_le_zpow₀ one_le_two (by norm_num)
    have hlarge : (1 : ℚ) < overflowBound := one_lt_mul_of_lt_of_le (by norm_num) hbase
    linarith
  nearest := by
    intro _
    refine ⟨0, rfl, fun y w hy => ⟨?_, fun _ => .inr (by decide)⟩⟩
    rw [sub_zero, abs_of_nonneg hq]
    rw [value?_eq_decode?] at hy
    obtain ⟨b, hb, rfl⟩ := Option.map_eq_some_iff.1 hy
    rcases Nat.eq_zero_or_pos b.mantissa with hzero | hpos
    · have hvalue : b.value = 0 := by simpa [hzero] using b.abs_value
      rw [hvalue, sub_zero, abs_of_nonneg hq]
    · have hleast : (2 : ℚ) * 2 ^ (-1075 : ℤ) ≤ |b.value| := by
        have hmantissa : (1 : ℚ) ≤ b.mantissa := by exact_mod_cast hpos
        have hpow : (2 : ℚ) ^ (1 + -1075 : ℤ) ≤ 2 ^ b.exponent :=
          zpow_le_zpow_right₀ one_le_two (decode?_bounds hb).2
        rw [zpow_add₀ two_ne_zero, zpow_one] at hpow
        rw [b.abs_value, ← one_mul ((2 : ℚ) * _)]
        gcongr
      have htri : |b.value| ≤ |q - b.value| + q := by
        calc |b.value| = |q - b.value - q| := by rw [sub_sub_cancel_left, abs_neg]
          _ ≤ |q - b.value| + |q| := abs_sub _ _
          _ = |q - b.value| + q := by rw [abs_of_nonneg hq]
      linarith

/-- The float of a ratio is the nearest one. -/
theorem isNearest_ofRatio (n : Nat) {d : Nat} (hd : 0 < d) :
    IsNearest ((n : ℚ) / d) (ofRatio false n d) := by
  rcases Nat.eq_zero_or_pos n with rfl | hn
  · have hzero : ofRatio false 0 d = 0 := by
      rw [ofRatio, nearestBits, if_pos rfl]
      rfl
    rw [Nat.cast_zero, zero_div, hzero]
    exact isNearest_zero le_rfl (by positivity)
  obtain ⟨e, he, hhigh, hlow⟩ := exists_rounding_exponent (q := (n : ℚ) / d) (by positivity)
  have hbits : nearestBits n d = min ((e + 1074).toNat * 2 ^ 52 +
      roundDiv (scaled 2 n d (-e)).1 (scaled 2 n d (-e)).2) infinityBits :=
    nearestBits_eq hn hd hlow hhigh he
  have hratio : (n : ℚ) / d = (scaled 2 n d (-e)).1 / (scaled 2 n d (-e)).2 * 2 ^ e := by
    rw [scaled_ratio, Nat.cast_ofNat, mul_assoc, ← zpow_add₀ two_ne_zero, neg_add_cancel, zpow_zero,
      mul_one]
  have hc : 0 < (scaled 2 n d (-e)).2 := scaled_pos two_pos hd (-e)
  generalize (scaled 2 n d (-e)).1 = m at hbits hratio
  generalize (scaled 2 n d (-e)).2 = c at hbits hratio hc
  have hpos : (0 : ℚ) < 2 ^ e := by positivity
  rw [add_comm e, zpow_add₀ two_ne_zero, hratio, mul_lt_mul_iff_left₀ hpos] at hhigh
  rw [add_comm e, zpow_add₀ two_ne_zero, hratio, mul_le_mul_iff_left₀ hpos] at hlow
  have hlow : e = -1074 ∨ (2 : ℚ) ^ 52 ≤ m / c := hlow
  have hhigh : (m : ℚ) / c < 2 ^ 53 := hhigh
  obtain ⟨hhalf, heven⟩ := abs_sub_roundDiv_le (n := m) hc
  have hover := infinityBits_le_iff hlow hhigh hhalf heven
  have hfloat : ofRatio false n d = Float.ofBits (.ofNat (nearestBits n d)) := rfl
  rw [hfloat, hbits, hratio]
  refine ⟨?_, fun h => ?_, fun h => ?_⟩
  · rw [toBits_ofBits (min_le_right _ _)]
    exact (min_le_right _ _).trans_lt (by decide)
  · rw [min_eq_right (hover.2 h)]
    rfl
  · have hlt : (e + 1074).toNat * 2 ^ 52 + roundDiv m c < infinityBits :=
      not_le.1 (mt hover.1 (not_le.2 h))
    obtain ⟨hmlow, hmhigh⟩ := roundDiv_between hlow hhigh hhalf
    rw [min_eq_left hlt.le, toBits_ofBits hlt.le]
    refine ⟨_, value?_ofBits he hmlow hmhigh hlt, fun y w hy => ?_⟩
    obtain ⟨hle, htie⟩ := roundDiv_nearest_float hc hlow hy
    refine ⟨hle, fun heq => (htie heq).imp_right fun heven => ?_⟩
    exact (Even.mul_left (by decide) _).add heven

lemma overflowBound_le {k : Nat} (h : 1024 ≤ k) : overflowBound ≤ 2 ^ k :=
  calc overflowBound ≤ 2 ^ 54 * 2 ^ (970 : ℤ) := by
        unfold overflowBound
        gcongr
        norm_num
    _ = 2 ^ (54 + 970) := by rw [zpow_ofNat, ← pow_add]
    _ ≤ 2 ^ k := pow_le_pow_right₀ one_le_two h

/-- Powers of two that are out of range stand for all numbers that are. -/
lemma isNearest_infinity {q : ℚ} {k : Nat} (hq : overflowBound ≤ q) (hk : 1024 ≤ k) :
    IsNearest q (ofRatio false (Nat.pow 2 k) 1) := by
  obtain ⟨hpositive, hinfinite, -⟩ := isNearest_ofRatio (Nat.pow 2 k) one_pos
  refine ⟨hpositive, fun _ => hinfinite ?_, fun h => absurd hq (not_le.2 h)⟩
  rw [Nat.cast_one, div_one, Nat.pow_eq, Nat.cast_pow]
  exact overflowBound_le hk

lemma two_pow_le_ten_pow {m n : Nat} (h : m ≤ 3 * n) : (2 : ℚ) ^ m ≤ 10 ^ n :=
  calc (2 : ℚ) ^ m ≤ 2 ^ (3 * n) := pow_le_pow_right₀ one_le_two h
    _ = (2 ^ 3) ^ n := pow_mul _ _ _
    _ ≤ 10 ^ n := pow_le_pow_left₀ (by norm_num) (by norm_num) n

namespace Decimal

/-- The position of the point bounds the number. -/
lemma between_powers {d : Decimal} (h : d.digits ≠ 0) :
    (10 : ℚ) ^ (d.point - 1) ≤ d.digits * 10 ^ d.exponent ∧
      (d.digits : ℚ) * 10 ^ d.exponent < 10 ^ d.point := by
  have hlen : 0 < d.chars.length := Nat.length_toDigits_pos
  have hhigh : d.digits < 10 ^ d.chars.length :=
    (Nat.length_toDigits_le_iff (by norm_num) hlen).1 le_rfl
  have hlow : 10 ^ (d.chars.length - 1) ≤ d.digits := by
    rcases Nat.eq_zero_or_pos (d.chars.length - 1) with hone | hmore
    · rw [hone]
      exact Nat.one_le_iff_ne_zero.2 h
    · by_contra hlt
      have := (Nat.length_toDigits_le_iff (by norm_num) hmore).2 (not_le.1 hlt)
      have : d.chars.length ≤ d.chars.length - 1 := this
      omega
  have hpred : d.point - 1 = ((d.chars.length - 1 : Nat) : Int) + d.exponent := by
    unfold point
    omega
  constructor
  · rw [hpred, zpow_add₀ (by norm_num), zpow_natCast]
    gcongr
    exact_mod_cast hlow
  · rw [point, zpow_add₀ (by norm_num), zpow_natCast]
    gcongr
    exact_mod_cast hhigh

/-- The float of a decimal number is the nearest one. -/
theorem isNearest_toFloat (d : Decimal) :
    IsNearest ((d.digits : ℚ) * 10 ^ d.exponent) d.toFloat := by
  unfold toFloat
  split_ifs with hzero hlarge hsmall
  · rw [hzero, Nat.cast_zero, zero_mul]
    exact isNearest_zero le_rfl (by positivity)
  · -- infinity is made from a power of two that is out of range too
    have hbound : overflowBound ≤ (d.digits : ℚ) * 10 ^ d.exponent :=
      calc overflowBound ≤ 2 ^ 1024 := overflowBound_le le_rfl
        _ ≤ 10 ^ 400 := two_pow_le_ten_pow (by norm_num)
        _ = 10 ^ ((400 : Nat) : ℤ) := (zpow_natCast _ _).symm
        _ ≤ 10 ^ (d.point - 1) := zpow_le_zpow_right₀ (by norm_num) (by omega)
        _ ≤ d.digits * 10 ^ d.exponent := (between_powers hzero).1
    apply isNearest_infinity
    · exact hbound
    · exact le_rfl
  · refine isNearest_zero (by positivity) ((between_powers hzero).2.le.trans ?_)
    calc (10 : ℚ) ^ d.point ≤ 10 ^ (-(401 : Nat) : ℤ) := zpow_le_zpow_right₀ (by norm_num) (by omega)
      _ ≤ 2 ^ (-(1075 : Nat) : ℤ) := by
        rw [zpow_neg, zpow_neg, zpow_natCast, zpow_natCast]
        exact inv_anti₀ (by positivity) (two_pow_le_ten_pow (by norm_num))
  · have hratio := scaled_ratio 10 d.digits 1 d.exponent
    rw [Nat.cast_one, div_one, Nat.cast_ofNat] at hratio
    rw [← hratio]
    exact isNearest_ofRatio _ (scaled_pos (by norm_num) one_pos _)

end Decimal

/-! ## Uniqueness -/

lemma ofBits_toBits (x : Float) : Float.ofBits (.ofNat x.toBits.toNat) = x := by
  obtain ⟨⟨bits, hvalid⟩⟩ := x
  have hbits : UInt64.ofNat bits.toNat = bits := UInt64.ofNat_toNat
  change Float.ofBits (.ofNat bits.toNat) = _
  rw [hbits, Float.ofBits, Float.Model.ofBits, Float.Model.pack]
  congr 2
  exact congrArg UInt64.ofBitVec (pack_unpack_of_valid hvalid)

/-- A finite float that is not negative has bits before those of infinity. -/
lemma toBits_lt_infinityBits {x : Float} {v : ℚ} (hx : x.toBits.toNat < 2 ^ 63)
    (hv : value? x = some v) : x.toBits.toNat < infinityBits := by
  rw [value?_eq_decode?] at hv
  obtain ⟨b, hb, -⟩ := Option.map_eq_some_iff.1 hv
  unfold decode? at hb
  simp only [Nat.pow_eq] at hb
  unfold infinityBits
  split_ifs at hb <;> omega

/-- The next bits are those of a larger float. -/
lemma value?_succ {bits : Nat} (h : bits + 1 < infinityBits) :
    ∃ v w, value? (Float.ofBits (.ofNat bits)) = some v ∧
      value? (Float.ofBits (.ofNat (bits + 1))) = some w ∧ v < w := by
  obtain ⟨m, e, he, hlow, hhigh, rfl⟩ : ∃ (m : Nat) (e : Int), -1074 ≤ e ∧ (e = -1074 ∨ 2 ^ 52 ≤ m) ∧
      m < 2 ^ 53 ∧ bits = (e + 1074).toNat * 2 ^ 52 + m := by
    rcases Nat.lt_or_ge bits (2 ^ 52) with hbits | hbits
    · exact ⟨bits, -1074, le_rfl, .inl rfl, by omega, by omega⟩
    · exact ⟨bits % 2 ^ 52 + 2 ^ 52, (bits / 2 ^ 52 : Nat) - 1075, by omega, .inr (by omega), by omega,
        by omega⟩
  rw [Nat.add_assoc] at h ⊢
  refine ⟨_, _, value?_ofBits he hlow hhigh.le (by omega),
    value?_ofBits he (hlow.imp_right (by omega)) hhigh h, ?_⟩
  gcongr
  exact Nat.lt_succ_self m

/-- Of two floats that are not negative, the one with the larger bits is the larger one. -/
lemma value?_strictMono {a b : Nat} (hab : a < b) (hb : b < infinityBits) :
    ∃ v w, value? (Float.ofBits (.ofNat a)) = some v ∧
      value? (Float.ofBits (.ofNat b)) = some w ∧ v < w := by
  induction b, hab using Nat.le_induction with
  | base => exact value?_succ hb
  | succ b hab ih =>
    obtain ⟨v, w, hv, hw, hlt⟩ := ih (by omega)
    obtain ⟨w', u, hw', hu, hlt'⟩ := value?_succ hb
    obtain rfl := Option.some.inj (hw.symm.trans hw')
    exact ⟨v, u, hv, hu, hlt.trans hlt'⟩

namespace IsNearest

variable {q : ℚ} {x y : Float}

/-- Between two nearest floats there would be a nearer one. -/
lemma not_toBits_lt (hx : IsNearest q x) (hy : IsNearest q y) (hq : q < overflowBound) :
    ¬x.toBits.toNat < y.toBits.toNat := by
  intro hlt
  obtain ⟨v, hv, hxnear⟩ := hx.nearest hq
  obtain ⟨w, hw, hynear⟩ := hy.nearest hq
  have hfinite := toBits_lt_infinityBits hy.positive hw
  have hlarger : v < w := by
    obtain ⟨v', w', hv', hw', h⟩ := value?_strictMono hlt hfinite
    rw [ofBits_toBits] at hv' hw'
    rwa [Option.some.inj (hv.symm.trans hv'), Option.some.inj (hw.symm.trans hw')]
  have htie : |q - v| = |q - w| := le_antisymm (hxnear y w hw).1 (hynear x v hv).1
  have hxeven := ((hxnear y w hw).2 htie).resolve_left hlarger.ne'
  have hyeven := ((hynear x v hv).2 htie.symm).resolve_left hlarger.ne
  have hnext : x.toBits.toNat + 1 < y.toBits.toNat := by
    rw [Nat.even_iff] at hxeven hyeven
    omega
  obtain ⟨v', u, hv', hu, hvu⟩ := value?_strictMono (Nat.lt_succ_self x.toBits.toNat) (hnext.trans hfinite)
  obtain ⟨u', w', hu', hw', huw⟩ := value?_strictMono hnext hfinite
  rw [ofBits_toBits] at hv' hw'
  obtain rfl := Option.some.inj (hv.symm.trans hv')
  obtain rfl := Option.some.inj (hw.symm.trans hw')
  obtain rfl := Option.some.inj (hu.symm.trans hu')
  -- the number is in the middle of the two
  have hmiddle : q - v = w - q := by
    rcases abs_eq_abs.1 htie with h | h <;> linarith
  have hnear := (hxnear _ u hu).1
  rw [abs_of_pos (by linarith)] at hnear
  rcases abs_cases (q - u) with ⟨h, -⟩ | ⟨h, -⟩ <;> linarith

/-- A number has one nearest float. -/
theorem unique (hx : IsNearest q x) (hy : IsNearest q y) : x = y := by
  rcases lt_or_ge q overflowBound with hq | hq
  · have hbits : x.toBits.toNat = y.toBits.toNat :=
      le_antisymm (not_lt.1 (hy.not_toBits_lt hx hq)) (not_lt.1 (hx.not_toBits_lt hy hq))
    rw [← ofBits_toBits x, hbits, ofBits_toBits]
  · have hunpack : x.toModel.unpack = y.toModel.unpack := (hx.overflow hq).trans (hy.overflow hq).symm
    have hbits := (unpack_inj_of_valid x.toModel.valid y.toModel.valid).1 hunpack
    rw [← ofBits_toBits x, ← ofBits_toBits y]
    exact congrArg (fun bits : BitVec 64 => Float.ofBits (.ofNat bits.toNat)) hbits

end IsNearest

end MatScript.Number

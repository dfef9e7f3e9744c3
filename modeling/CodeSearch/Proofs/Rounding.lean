import CodeSearch.Number.Decimal
import Mathlib.Algebra.Order.Field.Power
import Mathlib.Data.Int.Log
import Mathlib.Data.Rat.Floor
import Mathlib.Tactic.FieldSimp
import Mathlib.Tactic.Linarith
import Mathlib.Tactic.NormNum
import Mathlib.Tactic.Positivity
import Mathlib.Tactic.Ring

/-!
# Rounding to singles

The single nearest to a quotient depends on the quotient alone, not on how it is written,
and a finite single is the nearest to its own value. So two numerals of one value read as
the same single, and the shortest numeral of a finite single reads back as it. Rational
numbers occur in the proofs only.
-/
namespace CodeSearch

namespace Single

/-- The exponents with which a rational number is compared are determined by it. -/
lemma log_eq_of_bracket {b : ℕ} (hb : 1 < b) {q : ℚ} (hq : 0 < q) {e : ℤ}
    (hle : (b : ℚ) ^ e ≤ q) (hlt : q < (b : ℚ) ^ (e + 1)) : Int.log b q = e := by
  have h₁ := (Int.zpow_le_iff_le_log hb hq).mp hle
  have h₂ := (Int.lt_zpow_iff_log_lt hb hq).mp hlt
  omega

/-- Dividing a quotient by a power of two puts the power on the side where it is whole. -/
lemma quotient_scaled (num den : ℕ) (e : ℤ) :
    (num : ℚ) / den / 2 ^ e =
      if 0 ≤ e then (num : ℚ) / (den * 2 ^ e.toNat : ℕ)
      else (num * 2 ^ (-e).toNat : ℕ) / (den : ℚ) := by
  split
  · next he =>
    obtain ⟨n, rfl⟩ := Int.eq_ofNat_of_zero_le he
    push_cast
    rw [Int.toNat_natCast, zpow_natCast, div_div]
  · next he =>
    obtain ⟨n, rfl⟩ : ∃ n : ℕ, e = -(n : ℤ) := ⟨(-e).toNat, by omega⟩
    push_cast
    rw [neg_neg, Int.toNat_natCast, zpow_neg, zpow_natCast]
    field_simp

/-- The test that corrects the first guess of the exponent. -/
lemma zpow_le_quotient_iff {num den : ℕ} (hden : 0 < den) (e : ℤ) :
    (2 : ℚ) ^ e ≤ num / den ↔
      (if 0 ≤ e then den * Nat.pow 2 e.toNat ≤ num else den ≤ num * Nat.pow 2 (-e).toNat) := by
  have hpow : (0 : ℚ) < 2 ^ e := zpow_pos (by norm_num) e
  rw [← one_le_div hpow, quotient_scaled]
  have hden' : (0 : ℚ) < den := by exact_mod_cast hden
  split
  · have hpos : (0 : ℚ) < (den * 2 ^ e.toNat : ℕ) := by positivity
    rw [one_le_div hpos]
    exact_mod_cast Iff.rfl
  · rw [one_le_div hden']
    exact_mod_cast Iff.rfl

lemma log_bracket {n : ℕ} (hn : 0 < n) :
    (2 : ℚ) ^ (n.log2 : ℤ) ≤ n ∧ (n : ℚ) < 2 ^ ((n.log2 : ℤ) + 1) := by
  constructor
  · rw [zpow_natCast]
    exact_mod_cast Nat.log2_self_le (by omega)
  · rw [← Nat.cast_succ, zpow_natCast]
    exact_mod_cast Nat.lt_log2_self

/-- The exponent found by the comparison is the binary logarithm of the quotient. -/
theorem floorLog_eq_log {num den : ℕ} (hnum : 0 < num) (hden : 0 < den) :
    floorLog num den = Int.log 2 ((num : ℚ) / den) := by
  have hnum' : (0 : ℚ) < num := by exact_mod_cast hnum
  have hden' : (0 : ℚ) < den := by exact_mod_cast hden
  have hq : (0 : ℚ) < num / den := by positivity
  obtain ⟨hn₁, hn₂⟩ := log_bracket hnum
  obtain ⟨hd₁, hd₂⟩ := log_bracket hden
  have hlow : (2 : ℚ) ^ ((num.log2 : ℤ) - den.log2 - 1) ≤ num / den := by
    rw [sub_sub, zpow_sub₀ (by norm_num), div_le_div_iff₀ (by positivity) hden']
    exact mul_le_mul hn₁ hd₂.le hden'.le hnum'.le
  have hhigh : (num : ℚ) / den < 2 ^ ((num.log2 : ℤ) - den.log2 + 1) := by
    rw [sub_add_eq_add_sub, zpow_sub₀ (by norm_num), div_lt_div_iff₀ hden' (by positivity)]
    exact mul_lt_mul hn₂ hd₁ (by positivity) (by positivity)
  unfold floorLog
  dsimp only
  -- the first guess is the logarithm or one more, and the comparison tells which
  by_cases h : (2 : ℚ) ^ ((num.log2 : ℤ) - den.log2) ≤ num / den
  · rw [if_pos ((zpow_le_quotient_iff hden _).mp h)]
    exact (log_eq_of_bracket (by norm_num) hq (by exact_mod_cast h) (by exact_mod_cast hhigh)).symm
  · rw [if_neg (mt (zpow_le_quotient_iff hden _).mpr h)]
    refine (log_eq_of_bracket (by norm_num) hq (by exact_mod_cast hlow) ?_).symm
    rw [sub_add_cancel]
    exact_mod_cast not_le.mp h

lemma roundQuotient_mul (k num den : ℕ) (hk : 0 < k) :
    roundQuotient (k * num) (k * den) = roundQuotient num den := by
  have hlt : k * den < 2 * (k * (num % den)) ↔ den < 2 * (num % den) := by
    rw [Nat.mul_left_comm]
    exact Nat.mul_lt_mul_left hk
  have heq : 2 * (k * (num % den)) = k * den ↔ 2 * (num % den) = den := by
    rw [Nat.mul_left_comm]
    exact Nat.mul_right_inj hk.ne'
  simp only [roundQuotient, Nat.mul_div_mul_left _ _ hk, Nat.mul_mod_mul_left, Bool.or_eq_true,
    Bool.and_eq_true, decide_eq_true_eq, beq_iff_eq, hlt, heq]

lemma roundQuotient_congr {num den num' den' : ℕ} (hden : 0 < den) (hden' : 0 < den')
    (h : num * den' = num' * den) : roundQuotient num den = roundQuotient num' den' := by
  rw [← roundQuotient_mul den' num den hden', ← roundQuotient_mul den num' den' hden,
    Nat.mul_comm den' num, Nat.mul_comm den num', h, Nat.mul_comm den' den]

@[simp] lemma roundQuotient_mul_self (m : ℕ) {den : ℕ} (hden : 0 < den) :
    roundQuotient (m * den) den = m := by
  simp [roundQuotient, Nat.mul_div_cancel m hden, hden.ne]

/-- The mantissa in whole units, a power of two each. -/
def mantissa (num den : ℕ) (unit : ℤ) : ℕ :=
  if 0 ≤ unit then roundQuotient num (den * Nat.pow 2 unit.toNat)
  else roundQuotient (num * Nat.pow 2 (-unit).toNat) den

lemma mantissa_congr {num den num' den' : ℕ} (hden : 0 < den) (hden' : 0 < den')
    (h : num * den' = num' * den) (unit : ℤ) : mantissa num den unit = mantissa num' den' unit := by
  unfold mantissa
  split
  · have hpow : 0 < Nat.pow 2 unit.toNat := Nat.pow_pos (by norm_num)
    refine roundQuotient_congr (Nat.mul_pos hden hpow) (Nat.mul_pos hden' hpow) ?_
    rw [← Nat.mul_assoc, h, Nat.mul_assoc]
  · refine roundQuotient_congr hden hden' ?_
    rw [Nat.mul_right_comm, h, Nat.mul_right_comm]

/-- A quotient that is a whole number of units is not rounded. -/
lemma mantissa_of_whole {num den m : ℕ} {unit : ℤ} (hden : 0 < den)
    (h : (num : ℚ) / den = m * 2 ^ unit) : mantissa num den unit = m := by
  have hpow : (0 : ℚ) < 2 ^ unit := zpow_pos (by norm_num) unit
  have hden' : (0 : ℚ) < den := by exact_mod_cast hden
  have hm : (num : ℚ) / den / 2 ^ unit = m := by
    rw [h, mul_div_assoc, div_self hpow.ne', mul_one]
  rw [quotient_scaled] at hm
  unfold mantissa
  split
  · next hu =>
    rw [if_pos hu, div_eq_iff (by positivity)] at hm
    have hnum : num = m * (den * 2 ^ unit.toNat) := by exact_mod_cast hm
    exact hnum ▸ roundQuotient_mul_self m (Nat.mul_pos hden (Nat.pow_pos (by norm_num)))
  · next hu =>
    rw [if_neg hu, div_eq_iff hden'.ne'] at hm
    have hnum : num * Nat.pow 2 (-unit).toNat = m * den := by exact_mod_cast hm
    exact hnum ▸ roundQuotient_mul_self m hden

lemma ofRatio_eq (negative : Bool) {num den : ℕ} (hnum : 0 < num) (hden : 0 < den) :
    ofRatio negative num den =
      let unit : ℤ := max (Int.log 2 ((num : ℚ) / den) - 23) (-149)
      ofMagnitude negative
        (min infinite ((unit + 149).toNat * leadingBit + mantissa num den unit)) := by
  rw [ofRatio, if_neg hnum.ne', floorLog_eq_log hnum hden]
  rfl

/-- The nearest single depends on the quotient alone. -/
theorem ofRatio_congr (negative : Bool) {num den num' den' : ℕ} (hden : 0 < den) (hden' : 0 < den')
    (h : num * den' = num' * den) : ofRatio negative num den = ofRatio negative num' den' := by
  rcases Nat.eq_zero_or_pos num with rfl | hnum
  · have hnum' : num' = 0 := by simpa [hden.ne'] using h.symm
    simp [hnum', ofRatio]
  · have hnum' : 0 < num' := by
      refine Nat.pos_of_ne_zero fun h₀ => ?_
      rw [h₀, Nat.zero_mul] at h
      exact (Nat.mul_pos hnum hden').ne' h
    have hq : (num : ℚ) / den = num' / den' := by
      rw [div_eq_div_iff (by exact_mod_cast hden.ne') (by exact_mod_cast hden'.ne')]
      exact_mod_cast h
    rw [ofRatio_eq negative hnum hden, ofRatio_eq negative hnum' hden', hq]
    simp only [mantissa_congr hden hden' h]

@[simp] lemma ofMagnitude_self (x : Single) : ofMagnitude x.negative x.magnitude = x := by
  obtain ⟨bits⟩ := x
  have hlt : bits.toNat < 4294967296 := bits.toNat_lt
  unfold ofMagnitude
  congr 1
  apply UInt32.toNat_inj.1
  rw [Nat.toUInt32_eq, UInt32.toNat_ofNat_of_lt']
  · simp only [negative_iff, magnitude, signBit]
    split <;> omega
  · simp only [negative_iff, magnitude, signBit, UInt32.size]
    split <;> omega

/-- What the two parts of a finite single that is not zero can be. -/
structure IsDecoded (x : Single) (m : ℕ) (e : ℤ) : Prop where
  mantissa_pos : 0 < m
  mantissa_lt : m < 2 ^ 24
  least_le : -149 ≤ e
  le_greatest : e ≤ 104
  full : e = -149 ∨ 2 ^ 23 ≤ m
  magnitude_eq : (e + 149).toNat * leadingBit + m = x.magnitude

lemma isDecoded_decode {x : Single} (hf : x.isFinite) (hz : ¬ x.isZero) :
    x.IsDecoded x.decode.1 x.decode.2 := by
  have hf' : x.magnitude < 0x7F800000 := of_decide_eq_true hf
  have hz' : x.magnitude ≠ 0 := by simpa [isZero] using hz
  have hmod : x.magnitude % 0x800000 < 0x800000 := Nat.mod_lt _ (by norm_num)
  have hdiv : 0x800000 * (x.magnitude / 0x800000) + x.magnitude % 0x800000 = x.magnitude :=
    Nat.div_add_mod _ _
  by_cases he : x.magnitude / 0x800000 = 0
  · rw [show x.decode = (x.magnitude % 0x800000, -149) from if_pos he]
    refine ⟨by omega, by omega, by omega, by omega, by omega, ?_⟩
    change (-149 + 149 : ℤ).toNat * 0x800000 + x.magnitude % 0x800000 = x.magnitude
    omega
  · rw [show x.decode = (x.magnitude % 0x800000 + 0x800000,
      ((x.magnitude / 0x800000 : ℕ) : ℤ) - 150) from if_neg he]
    refine ⟨by omega, by omega, by omega, by omega, by omega, ?_⟩
    change (((x.magnitude / 0x800000 : ℕ) : ℤ) - 150 + 149).toNat * 0x800000 +
      (x.magnitude % 0x800000 + 0x800000) = x.magnitude
    omega

/-- The size of a finite single without its sign. -/
def value (x : Single) : ℚ :=
  x.decode.1 * 2 ^ x.decode.2

lemma value_pos {x : Single} (hf : x.isFinite) (hz : ¬ x.isZero) : 0 < x.value := by
  have hm : (0 : ℚ) < x.decode.1 := by exact_mod_cast (isDecoded_decode hf hz).mantissa_pos
  exact mul_pos hm (zpow_pos (by norm_num) _)

/-- A single is counted in units that are its own: its exponent is found again. -/
lemma unit_eq {x : Single} (hf : x.isFinite) (hz : ¬ x.isZero) :
    max (Int.log 2 x.value - 23) (-149) = x.decode.2 := by
  obtain ⟨hpos, hlt, hleast, -, hfull, -⟩ := isDecoded_decode hf hz
  have hv := value_pos hf hz
  have hpow : (0 : ℚ) < 2 ^ x.decode.2 := zpow_pos (by norm_num) _
  have hhigh : Int.log 2 x.value < x.decode.2 + 24 := by
    refine (Int.lt_zpow_iff_log_lt (by norm_num) hv).mp ?_
    push_cast
    rw [zpow_add₀ (by norm_num), mul_comm]
    refine (mul_lt_mul_iff_left₀ hpow).mpr ?_
    exact_mod_cast hlt
  -- a mantissa that is not full has the least unit, below which the maximum does not go
  rcases hfull with he | hfull
  · omega
  · have hlow : x.decode.2 + 23 ≤ Int.log 2 x.value := by
      refine (Int.zpow_le_iff_le_log (by norm_num) hv).mp ?_
      push_cast
      rw [zpow_add₀ (by norm_num), mul_comm]
      refine (mul_le_mul_iff_left₀ hpow).mpr ?_
      exact_mod_cast hfull
    omega

/-- A finite single is the nearest one to its own value, however that is written. -/
theorem ofRatio_of_value {x : Single} (hf : x.isFinite) (hz : ¬ x.isZero) {num den : ℕ}
    (hden : 0 < den) (h : (num : ℚ) / den = x.value) : ofRatio x.negative num den = x := by
  have hnum : 0 < num := by
    refine Nat.pos_of_ne_zero fun h₀ => (value_pos hf hz).ne ?_
    rw [← h, h₀, Nat.cast_zero, zero_div]
  have hmag : x.magnitude ≤ infinite := (of_decide_eq_true hf : x.magnitude < infinite).le
  rw [ofRatio_eq _ hnum hden, h]
  dsimp only
  rw [unit_eq hf hz, mantissa_of_whole hden h, (isDecoded_decode hf hz).magnitude_eq,
    min_eq_right hmag, ofMagnitude_self]

end Single

namespace Decimal

/-- The number that a numeral stands for, without its sign. -/
def value (d : Decimal) : ℚ :=
  d.digits * 10 ^ d.exponent

lemma value_eq_zero_iff {d : Decimal} : d.value = 0 ↔ d.digits = 0 := by
  have hpow : (10 : ℚ) ^ d.exponent ≠ 0 := zpow_ne_zero _ (by norm_num)
  simp [value, hpow]

lemma value_pos {d : Decimal} (h : d.digits ≠ 0) : 0 < d.value := by
  have hd : (0 : ℚ) < d.digits := by exact_mod_cast Nat.pos_of_ne_zero h
  exact mul_pos hd (zpow_pos (by norm_num) _)

lemma ratio_den_pos (d : Decimal) : 0 < d.ratio.2 := by
  unfold ratio
  split
  · exact Nat.one_pos
  · exact Nat.pow_pos (by norm_num)

lemma ratio_eq_value (d : Decimal) : (d.ratio.1 : ℚ) / d.ratio.2 = d.value := by
  unfold ratio value
  split
  · next he =>
    obtain ⟨n, hn⟩ := Int.eq_ofNat_of_zero_le he
    rw [hn]
    simp [zpow_natCast]
  · next he =>
    obtain ⟨n, hn⟩ : ∃ n : ℕ, d.exponent = -(n : ℤ) := ⟨(-d.exponent).toNat, by omega⟩
    rw [hn]
    simp [zpow_neg, zpow_natCast, div_eq_mul_inv]

/-- The place of the first digit follows from the number. -/
lemma size_eq {d : Decimal} (h : d.digits ≠ 0) : d.size = Int.log 10 d.value + 1 := by
  have hlen : 0 < countDigits d.digits := Nat.length_toDigits_pos
  have hlow : (10 : ℚ) ^ ((countDigits d.digits : ℤ) - 1) ≤ d.digits := by
    rw [← Nat.cast_pred hlen, zpow_natCast]
    have hle : 10 ^ (countDigits d.digits - 1) ≤ d.digits := by
      rcases Nat.eq_zero_or_pos (countDigits d.digits - 1) with h₀ | h₀
      · rw [h₀, pow_zero]
        exact Nat.one_le_iff_ne_zero.mpr h
      · by_contra hgt
        have := (Nat.length_toDigits_le_iff (by norm_num) h₀).mpr (not_le.mp hgt)
        have hcount : countDigits d.digits = (Nat.toDigits 10 d.digits).length := rfl
        omega
    exact_mod_cast hle
  have hhigh : (d.digits : ℚ) < 10 ^ (countDigits d.digits : ℤ) := by
    rw [zpow_natCast]
    exact_mod_cast (Nat.length_toDigits_le_iff (by norm_num) hlen).mp le_rfl
  have hpow : (0 : ℚ) < 10 ^ d.exponent := zpow_pos (by norm_num) _
  have hlog : Int.log 10 d.value = countDigits d.digits - 1 + d.exponent := by
    refine Single.log_eq_of_bracket (by norm_num) (value_pos h) ?_ ?_
    · push_cast
      rw [zpow_add₀ (by norm_num)]
      exact (mul_le_mul_iff_left₀ hpow).mpr hlow
    · rw [show (countDigits d.digits : ℤ) - 1 + d.exponent + 1 =
        countDigits d.digits + d.exponent by omega]
      push_cast
      rw [zpow_add₀ (by norm_num)]
      exact (mul_lt_mul_iff_left₀ hpow).mpr hhigh
  rw [hlog, size]
  omega

/-- Numerals with one sign and one value read as the same single. -/
theorem toSingle_congr {d d' : Decimal} (hn : d.negative = d'.negative) (hv : d.value = d'.value) :
    d.toSingle = d'.toSingle := by
  have hzero : d.digits = 0 ↔ d'.digits = 0 := by
    rw [← value_eq_zero_iff, ← value_eq_zero_iff, hv]
  by_cases h₀ : d.digits = 0
  · simp [toSingle, h₀, hzero.mp h₀, hn]
  · have hsize : d.size = d'.size := by
      rw [size_eq h₀, size_eq (mt hzero.mpr h₀), hv]
    have hratio : d.ratio.1 * d'.ratio.2 = d'.ratio.1 * d.ratio.2 := by
      have hq : (d.ratio.1 : ℚ) / d.ratio.2 = d'.ratio.1 / d'.ratio.2 := by
        rw [ratio_eq_value, ratio_eq_value, hv]
      rw [div_eq_div_iff (by exact_mod_cast d.ratio_den_pos.ne')
        (by exact_mod_cast d'.ratio_den_pos.ne')] at hq
      exact_mod_cast hq
    unfold toSingle
    simp only [h₀, mt hzero.mpr h₀, hsize, hn,
      Single.ofRatio_congr d'.negative d.ratio_den_pos d'.ratio_den_pos hratio]

lemma value_exact {x : Single} : (exact x).value = x.value := by
  unfold exact value Single.value
  dsimp only
  split
  · next he =>
    obtain ⟨n, hn⟩ := Int.eq_ofNat_of_zero_le he
    rw [hn]
    simp [zpow_natCast]
  · next he =>
    obtain ⟨n, hn⟩ : ∃ n : ℕ, x.decode.2 = -(n : ℤ) := ⟨(-x.decode.2).toNat, by omega⟩
    have hfive : (5 : ℚ) ^ n * (10 ^ n)⁻¹ = (2 ^ n)⁻¹ := by
      rw [show (10 : ℚ) = 5 * 2 by norm_num, mul_pow]
      field_simp
    rw [hn]
    simp [zpow_neg, zpow_natCast, mul_assoc, hfive]

lemma negative_exact (x : Single) : (exact x).negative = x.negative := by
  unfold exact
  dsimp only
  split <;> rfl

lemma digits_exact_ne_zero {x : Single} (hf : x.isFinite) (hz : ¬ x.isZero) :
    (exact x).digits ≠ 0 := by
  intro h
  have hv := value_eq_zero_iff.mpr h
  rw [value_exact] at hv
  exact (Single.value_pos hf hz).ne' hv

/-- Finite singles are far from the sizes that are decided without rounding. -/
lemma size_exact_bounds {x : Single} (hf : x.isFinite) (hz : ¬ x.isZero) :
    -60 ≤ (exact x).size ∧ (exact x).size ≤ 60 := by
  obtain ⟨hpos, hlt, hleast, hgreatest, -, -⟩ := Single.isDecoded_decode hf hz
  have hv := Single.value_pos hf hz
  have hd := digits_exact_ne_zero hf hz
  have hone : (1 : ℚ) ≤ x.decode.1 := by exact_mod_cast hpos
  have hlow : -61 ≤ Int.log 10 x.value := by
    refine (Int.zpow_le_iff_le_log (by norm_num) hv).mp ?_
    calc ((10 : ℕ) : ℚ) ^ (-61 : ℤ) ≤ 1 * 2 ^ (-149 : ℤ) := by norm_num
      _ ≤ x.decode.1 * 2 ^ x.decode.2 :=
        mul_le_mul hone (zpow_le_zpow_right₀ (by norm_num) hleast) (by positivity) (by positivity)
  have hhigh : Int.log 10 x.value < 60 := by
    refine (Int.lt_zpow_iff_log_lt (by norm_num) hv).mp ?_
    calc x.value ≤ 2 ^ 24 * 2 ^ (104 : ℤ) :=
        mul_le_mul (by exact_mod_cast hlt.le) (zpow_le_zpow_right₀ (by norm_num) hgreatest)
          (by positivity) (by positivity)
      _ < ((10 : ℕ) : ℚ) ^ (60 : ℤ) := by norm_num
  rw [size_eq hd, value_exact]
  omega

/-- The exact numeral of a finite single reads back as it. -/
lemma toSingle_exact {x : Single} (hf : x.isFinite) (hz : ¬ x.isZero) :
    (exact x).toSingle = x := by
  obtain ⟨hlow, hhigh⟩ := size_exact_bounds hf hz
  have hd := digits_exact_ne_zero hf hz
  have hsmall : ¬ ((decide ((exact x).digits = 0) || decide ((exact x).size < -60)) = true) := by
    simp [hd, hlow]
  rw [toSingle, if_neg hsmall, if_neg (by omega), negative_exact]
  exact Single.ofRatio_of_value hf hz (exact x).ratio_den_pos (by rw [ratio_eq_value, value_exact])

/-- The shortest numeral of a finite single reads back as it. -/
theorem toSingle_shortest {x : Single} (hf : x.isFinite) : (shortest x).toSingle = x := by
  unfold shortest
  split
  · next hz =>
    have hmag : x.magnitude = 0 := by simpa [Single.isZero] using hz
    have hx := x.ofMagnitude_self
    rw [hmag] at hx
    exact hx
  · next hz =>
    cases hfound : ((List.range' 1 9).flatMap (neighbours x)).find? fun d => d.toSingle = x with
    | some d => simpa using List.find?_some hfound
    | none => exact toSingle_exact hf hz

lemma not_isFinite_infinite (negative : Bool) :
    (Single.ofMagnitude negative Single.infinite).isFinite = false := by
  cases negative <;> decide

/-- A numeral that reads as a finite single is far below the infinities of 64 bits. -/
theorem fitsDouble_of_isFinite {d : Decimal} (h : d.toSingle.isFinite) : d.fitsDouble := by
  unfold fitsDouble
  split
  · rfl
  · next hsmall =>
    have hd : d.digits ≠ 0 := fun h₀ => hsmall (by simp [h₀])
    have hsize : d.size ≤ 60 := by
      by_contra hgt
      have hlow : ¬ ((decide (d.digits = 0) || decide (d.size < -60)) = true) := by
        simp only [hd, decide_false, Bool.false_or, decide_eq_true_eq]
        omega
      rw [toSingle, if_neg hlow, if_pos (not_le.mp hgt), not_isFinite_infinite] at h
      exact Bool.noConfusion h
    rw [if_neg (by omega)]
    have hvalue : d.value < 10 ^ (60 : ℤ) := by
      have := (Int.lt_zpow_iff_log_lt (b := 10) (by norm_num) (value_pos hd)).mpr
        (show Int.log 10 d.value < 60 by rw [size_eq hd] at hsize; omega)
      exact_mod_cast this
    have hden : (0 : ℚ) < d.ratio.2 := by exact_mod_cast d.ratio_den_pos
    have hlt : d.ratio.1 < 10 ^ 60 * d.ratio.2 := by
      rw [← ratio_eq_value, div_lt_iff₀ hden] at hvalue
      exact_mod_cast hvalue
    have hlimit : 10 ^ 60 ≤ doubleLimit := by decide +kernel
    exact decide_eq_true (hlt.trans_le (Nat.mul_le_mul_right _ hlimit))

end Decimal

end CodeSearch

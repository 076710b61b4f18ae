import MooCore.Proofs.Text.Floats
import MooCore.Binary64.Shortest
/-!
# Rounding to the nearest number

Every ratio in the span of a positive finite number rounds to that number. At a power of two the
span is half as wide below as above, and what lies below is rounded one binary place finer.
-/

set_option autoImplicit false
namespace MooCore.Binary64

variable {x : Binary64}

/-! ## The fields of a pattern -/

def magnitude (x : Binary64) : Nat := x.exponentBits * 2 ^ 52 + x.fractionBits

theorem exponentBits_eq (x : Binary64) : x.exponentBits = x.bits.toNat / 2 ^ 52 % 2 ^ 11 := by
  have mask : (0x7ff : Nat) = 2 ^ 11 - 1 := by decide
  rw [exponentBits, UInt64.toNat_and, UInt64.toNat_shiftRight]
  change x.bits.toNat >>> 52 &&& 0x7ff = _
  rw [mask, Nat.and_two_pow_sub_one_eq_mod, Nat.shiftRight_eq_div_pow]

theorem fractionBits_eq (x : Binary64) : x.fractionBits = x.bits.toNat % 2 ^ 52 := by
  have mask : (0xfffffffffffff : Nat) = 2 ^ 52 - 1 := by decide
  rw [fractionBits, UInt64.toNat_and]
  change x.bits.toNat &&& 0xfffffffffffff = _
  rw [mask, Nat.and_two_pow_sub_one_eq_mod]

theorem negative_iff (x : Binary64) : x.negative = true ↔ x.bits.toNat / 2 ^ 63 = 1 := by
  rw [negative, beq_iff_eq, ← UInt64.toNat_inj, UInt64.toNat_shiftRight]
  change x.bits.toNat >>> 63 = 1 ↔ _
  rw [Nat.shiftRight_eq_div_pow]

theorem ofParts_magnitude (x : Binary64) : ofParts x.negative x.magnitude = x := by
  have bound := x.bits.toNat_lt
  have sign := x.negative_iff
  have whole : (if x.negative = true then 1 <<< 63 else 0) + x.magnitude = x.bits.toNat := by
    rw [magnitude, exponentBits_eq, fractionBits_eq]
    split <;> simp_all only [true_iff, Bool.false_eq_true, false_iff, Bool.not_eq_true] <;> omega
  rw [ofParts, whole, UInt64.ofNat_toNat]

theorem fractionBits_lt (x : Binary64) : x.fractionBits < 2 ^ 52 := by
  rw [fractionBits_eq]
  exact Nat.mod_lt _ (by decide)

theorem exponentBits_lt (x : Binary64) : x.exponentBits < 2 ^ 11 := by
  rw [exponentBits_eq]
  exact Nat.mod_lt _ (by decide)

def IsFinite (x : Binary64) : Prop := x.exponentBits < 0x7ff

theorem isFinite_of (nan : x.isNaN ≠ true) (infinite : x.isInfinite ≠ true) : x.IsFinite := by
  have bound := x.exponentBits_lt
  simp only [isNaN, isInfinite, ne_eq, Bool.and_eq_true, beq_iff_eq, bne_iff_ne] at nan infinite
  unfold IsFinite
  omega

theorem significand_lt (x : Binary64) : x.significand < 2 ^ 53 := by
  have bound := x.fractionBits_lt
  unfold significand
  split <;> omega

theorem magnitude_eq (x : Binary64) : x.magnitude = x.scale * 2 ^ 52 + x.significand := by
  unfold magnitude scale significand
  split <;> omega

theorem significand_pos (nonzero : x.isZero ≠ true) : 0 < x.significand := by
  simp only [isZero, ne_eq, Bool.and_eq_true, beq_iff_eq] at nonzero
  unfold significand
  split <;> omega

theorem IsFinite.scale_le (finite : x.IsFinite) : x.scale ≤ 2045 := by
  unfold IsFinite at finite
  unfold scale
  omega

/-! ## Rounding a ratio -/

/-- A ratio at most one half away from `m` rounds to `m`; at exactly one half `m` has to be
even. -/
theorem roundHalfEven_eq {num den m : Nat} (pos : 0 < den)
    (upper : 2 * num ≤ (2 * m + 1) * den) (lower : 2 * m * den ≤ 2 * num + den)
    (tie : m % 2 = 0 ∨ 2 * num < (2 * m + 1) * den ∧ 2 * m * den < 2 * num + den) :
    roundHalfEven num den = m := by
  have split := Nat.div_add_mod num den
  have small := Nat.mod_lt num pos
  unfold roundHalfEven
  generalize num / den = q at split ⊢
  generalize num % den = r at split small ⊢
  have le : q ≤ m := by
    by_contra more
    have : den * (m + 1) ≤ den * q := Nat.mul_le_mul_left den (by omega)
    nlinarith
  have ge : m ≤ q + 1 := by
    by_contra less
    have : den * (q + 2) ≤ den * m := Nat.mul_le_mul_left den (by omega)
    nlinarith
  obtain rfl | rfl : m = q ∨ m = q + 1 := by omega
  · have two : (2 * m + 1) * den = 2 * (den * m) + den := by ring
    dsimp only
    split_ifs <;> omega
  · have two : (2 * (q + 1) + 1) * den = 2 * (den * q) + 3 * den := by ring
    have two' : 2 * (q + 1) * den = 2 * (den * q) + 2 * den := by ring
    dsimp only
    split_ifs <;> omega

theorem shift_eq {units s : Nat} (upper : units < 2 ^ (53 + s))
    (lower : s = 0 ∨ 2 ^ (52 + s) ≤ units) :
    (if units = 0 then 0 else units.log2 - 52) = s := by
  split
  · rename_i none
    rcases lower with rfl | lower
    · rfl
    · have := Nat.two_pow_pos (52 + s)
      omega
  · rename_i some
    have below := (Nat.log2_lt some).2 upper
    rcases lower with rfl | lower
    · omega
    · have above := (Nat.le_log2 some).2 lower
      omega

theorem ofRatio_of_shift {num den s m : Nat} (neg : Bool) (small : s * 2 ^ 52 + m < 0x7ff <<< 52)
    (shift : (if num <<< 1074 / den = 0 then 0 else (num <<< 1074 / den).log2 - 52) = s)
    (rounded : roundHalfEven (num <<< 1074) (den <<< s) = m) :
    ofRatio neg num den = ofParts neg (s * 2 ^ 52 + m) := by
  have magnitude : (if s = 0 then m else (s <<< 52) + m) = s * 2 ^ 52 + m := by
    rw [Nat.shiftLeft_eq]
    split
    · rename_i zero
      rw [zero, Nat.zero_mul, Nat.zero_add]
    · rfl
  unfold ofRatio
  simp only [shift, rounded, magnitude]
  rw [if_neg (by omega)]

/-! ## Ratios in a span -/

/-- What lies in a span is at most half a step away from its middle; at exactly half a step the
significand has to be even. -/
theorem span_holds {num den : Nat} (inside : x.span.holds num den = true) :
    num ≤ (2 * x.significand + 1) * (den * 2 ^ x.scale) ∧
      2 * x.significand * (den * 2 ^ x.scale) ≤ num + den * 2 ^ x.scale ∧
      (x.significand % 2 = 0 ∨ num < (2 * x.significand + 1) * (den * 2 ^ x.scale) ∧
        2 * x.significand * (den * 2 ^ x.scale) < num + den * 2 ^ x.scale) := by
  have high : (2 * x.significand * 2 ^ x.scale + 2 ^ x.scale) * den =
      (2 * x.significand + 1) * (den * 2 ^ x.scale) := by ring
  have mid : 2 * x.significand * 2 ^ x.scale * den =
      2 * x.significand * (den * 2 ^ x.scale) := by ring
  have below : (if x.fractionBits = 0 ∧ 1 < x.exponentBits then 2 ^ x.scale / 2 else 2 ^ x.scale) *
      den ≤ den * 2 ^ x.scale := by
    rw [Nat.mul_comm den]
    refine Nat.mul_le_mul_right den ?_
    split
    · exact Nat.div_le_self _ _
    · exact Nat.le_refl _
  simp only [span, Span.holds, Nat.shiftLeft_eq, Nat.one_mul, Nat.sub_mul, high, mid,
    beq_iff_eq] at inside
  split at inside <;> rename_i even <;>
    simp only [Bool.and_eq_true, decide_eq_true_eq] at inside <;> omega

theorem span_holds_narrow {num den : Nat} (inside : x.span.holds num den = true)
    (power : x.fractionBits = 0) (scaled : 1 < x.exponentBits) :
    2 * x.significand * (den * 2 ^ x.scale) ≤ num + den * (2 ^ x.scale / 2) := by
  have mid : 2 * x.significand * 2 ^ x.scale * den =
      2 * x.significand * (den * 2 ^ x.scale) := by ring
  have below : 2 ^ x.scale / 2 * den = den * (2 ^ x.scale / 2) := Nat.mul_comm _ _
  simp only [span, Span.holds, Nat.shiftLeft_eq, Nat.one_mul, Nat.sub_mul, power, scaled,
    true_and, if_true, mid, below] at inside
  split at inside <;> simp only [Bool.and_eq_true, decide_eq_true_eq] at inside <;> omega

theorem ofRatio_at_scale (finite : x.IsFinite) (neg : Bool) {num den : Nat} (pos : 0 < den)
    (inside : x.span.holds (2 * num <<< 1074) den = true)
    (leading : x.scale = 0 ∨ 2 ^ (52 + x.scale) * den ≤ num <<< 1074) :
    ofRatio neg num den = ofParts neg (x.scale * 2 ^ 52 + x.significand) := by
  have small : x.scale * 2 ^ 52 + x.significand < 0x7ff <<< 52 := by
    have le := finite.scale_le
    have lt := x.significand_lt
    rw [Nat.shiftLeft_eq]
    omega
  have lt := x.significand_lt
  obtain ⟨upper, lower, tie⟩ := span_holds inside
  refine ofRatio_of_shift neg small (shift_eq ?_ ?_) ?_
  · rw [Nat.div_lt_iff_lt_mul pos]
    have step : 2 ^ (53 + x.scale) * den = 2 ^ 53 * (den * 2 ^ x.scale) := by ring
    have some := Nat.mul_pos pos (Nat.two_pow_pos x.scale)
    have most : (2 * x.significand + 1) * (den * 2 ^ x.scale) <
        2 * 2 ^ 53 * (den * 2 ^ x.scale) := Nat.mul_lt_mul_of_pos_right (by omega) some
    rw [step]
    omega
  · rw [Nat.le_div_iff_mul_le pos]
    exact leading
  · rw [Nat.shiftLeft_eq den]
    refine roundHalfEven_eq (Nat.mul_pos pos (Nat.two_pow_pos x.scale)) upper lower tie

/-- Just below a power of two the shift is one less than the scale. -/
theorem ofRatio_below_power (finite : x.IsFinite) (neg : Bool) {num den : Nat} (pos : 0 < den)
    (inside : x.span.holds (2 * num <<< 1074) den = true) (power : x.fractionBits = 0)
    (scaled : 1 < x.exponentBits) (under : num <<< 1074 < 2 ^ (52 + x.scale) * den) :
    ofRatio neg num den = ofParts neg (x.scale * 2 ^ 52 + x.significand) := by
  have significand : x.significand = 2 ^ 52 := by
    rw [Binary64.significand, if_neg (by omega), power]
    decide
  have narrow := span_holds_narrow inside power scaled
  have le := finite.scale_le
  obtain ⟨s, scale⟩ : ∃ s, x.scale = s + 1 := ⟨x.scale - 1, by unfold Binary64.scale; omega⟩
  have halved : 2 ^ (s + 1) / 2 = 2 ^ s := by omega
  have next : (s + 1) * 2 ^ 52 + 2 ^ 52 = s * 2 ^ 52 + 2 ^ 53 := by omega
  have small : s * 2 ^ 52 + 2 ^ 53 < 0x7ff <<< 52 := by
    rw [Nat.shiftLeft_eq]
    omega
  have double : den * 2 ^ (s + 1) = 2 * (den * 2 ^ s) := by ring
  have top : 2 ^ (52 + (s + 1)) * den = 2 ^ 53 * (den * 2 ^ s) := by ring
  rw [significand, scale, halved, double] at narrow
  rw [scale, top] at under
  rw [significand, scale, next]
  refine ofRatio_of_shift neg small (shift_eq ?_ (Or.inr ?_)) ?_
  · rw [Nat.div_lt_iff_lt_mul pos]
    have step : 2 ^ (53 + s) * den = 2 ^ 53 * (den * 2 ^ s) := by ring
    rw [step]
    exact under
  · rw [Nat.le_div_iff_mul_le pos]
    have step : 2 ^ (52 + s) * den = 2 ^ 52 * (den * 2 ^ s) := by ring
    rw [step]
    omega
  · rw [Nat.shiftLeft_eq den]
    refine roundHalfEven_eq (Nat.mul_pos pos (Nat.two_pow_pos s)) ?_ ?_ (Or.inl (by decide))
    · rw [Nat.add_mul]
      omega
    · omega

theorem ofRatio_of_holds (finite : x.IsFinite) (neg : Bool) {num den : Nat} (pos : 0 < den)
    (inside : x.span.holds (2 * num <<< 1074) den = true) :
    ofRatio neg num den = ofParts neg x.magnitude := by
  rw [magnitude_eq]
  by_cases leading : x.scale = 0 ∨ 2 ^ (52 + x.scale) * den ≤ num <<< 1074
  · exact ofRatio_at_scale finite neg pos inside leading
  · simp only [not_or, Nat.not_le] at leading
    obtain ⟨scaled, under⟩ := leading
    have exponent : 1 < x.exponentBits := by
      unfold Binary64.scale at scaled
      omega
    have power : x.fractionBits = 0 := by
      by_contra more
      have significand : 2 ^ 52 + 1 ≤ x.significand := by
        rw [Binary64.significand, if_neg (by omega), Nat.shiftLeft_eq]
        omega
      have least : (2 * 2 ^ 52 + 2) * (den * 2 ^ x.scale) ≤
          2 * x.significand * (den * 2 ^ x.scale) := Nat.mul_le_mul_right _ (by omega)
      have step : 2 ^ (52 + x.scale) * den = 2 ^ 52 * (den * 2 ^ x.scale) := by ring
      have lower := (span_holds inside).2.1
      rw [step] at under
      rw [Nat.add_mul] at least
      omega
    exact ofRatio_below_power finite neg pos inside power exponent under

end MooCore.Binary64

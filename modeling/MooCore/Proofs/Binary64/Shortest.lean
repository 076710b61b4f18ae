import MooCore.Proofs.Binary64.Rounding
/-!
# Numbers are read back from their text

The search for the shortest decimal ends on a grid that is finer than the span is wide, so what it
finds lies in the span, and what lies in the span is read as the number. Only what is not a number
has one text for many patterns.
-/

set_option autoImplicit false
namespace MooCore.Binary64

open Text (digits)

variable {x : Binary64} {s : Span}

/-! ## Grids -/

def Span.Has (s : Span) (q : ℚ) : Prop :=
  s.low ≤ q ∧ q ≤ s.high ∧ (s.closed = true ∨ s.low < q ∧ q < s.high)

theorem Span.holds_iff {num den : ℕ} (pos : 0 < den) :
    s.holds num den = true ↔ s.Has ((num : ℚ) / den) := by
  have some : (0 : ℚ) < den := Nat.cast_pos.2 pos
  have low : (s.low : ℚ) ≤ num / den ↔ s.low * den ≤ num := by
    rw [le_div_iff₀ some]
    exact_mod_cast Iff.rfl
  have high : (num : ℚ) / den ≤ s.high ↔ num ≤ s.high * den := by
    rw [div_le_iff₀ some]
    exact_mod_cast Iff.rfl
  have above : (s.low : ℚ) < num / den ↔ s.low * den < num := by
    rw [lt_div_iff₀ some]
    exact_mod_cast Iff.rfl
  have below : (num : ℚ) / den < s.high ↔ num < s.high * den := by
    rw [div_lt_iff₀ some]
    exact_mod_cast Iff.rfl
  rw [Has, low, high, above, below, holds]
  split
  · rename_i closed
    simp [closed]
  · rename_i isOpen
    simp only [isOpen, Bool.and_eq_true, decide_eq_true_eq, Bool.false_eq_true, false_or]
    exact ⟨fun h => ⟨h.1.le, h.2.le, h⟩, fun h => h.2.2⟩

/-- Spans are ranges around their middle. -/
structure Span.Proper (s : Span) : Prop where
  low : s.low < s.mid
  high : s.mid < s.high

theorem Span.Proper.has_mid (proper : s.Proper) : s.Has s.mid := by
  have low : (s.low : ℚ) < s.mid := Nat.cast_lt.2 proper.low
  have high : (s.mid : ℚ) < s.high := Nat.cast_lt.2 proper.high
  exact ⟨low.le, high.le, Or.inr ⟨low, high⟩⟩

theorem grid_ratio (half : Nat) (unit : Int) :
    ((if 0 ≤ unit then Nat.pow 10 unit.toNat * half else half : ℕ) : ℚ) /
      ((if 0 ≤ unit then 1 else Nat.pow 10 (-unit).toNat : ℕ) : ℚ) = (10 : ℚ) ^ unit * half := by
  split
  · rename_i whole
    have power : (10 : ℚ) ^ unit = 10 ^ unit.toNat := by
      rw [← zpow_natCast, Int.toNat_of_nonneg whole]
    simp [Nat.pow_eq, power]
  · rename_i part
    have power : (10 : ℚ) ^ unit = (10 ^ (-unit).toNat)⁻¹ := by
      rw [← zpow_natCast, Int.toNat_of_nonneg (by omega), zpow_neg, inv_inv]
    simp only [Nat.pow_eq, power]
    push_cast
    rw [div_eq_inv_mul]

/-- What a grid is found to have lies in the span. -/
theorem onGrid_has {half n : Nat} {unit : Int} (proper : s.Proper)
    (found : onGrid s half unit = some n) : s.Has (n * ((10 : ℚ) ^ unit * half)) := by
  have pos : 0 < (if 0 ≤ unit then 1 else Nat.pow 10 (-unit).toNat : ℕ) := by
    split
    · decide
    · exact Nat.pow_pos (by decide)
  unfold onGrid at found
  rw [← grid_ratio]
  dsimp only at found
  generalize (if 0 ≤ unit then Nat.pow 10 unit.toNat * half else half : ℕ) = up at found ⊢
  generalize (if 0 ≤ unit then 1 else Nat.pow 10 (-unit).toNat : ℕ) = down at found pos ⊢
  have some_down : (down : ℚ) ≠ 0 := Nat.cast_ne_zero.2 pos.ne'
  have fits : ∀ k, s.holds (k * up) down = true → s.Has (k * ((up : ℚ) / down)) := by
    intro k holds
    have has := (Span.holds_iff pos).1 holds
    rwa [Nat.cast_mul, mul_div_assoc] at has
  split at found
  · rename_i exactly
    cases found
    have whole : s.mid * down / up * up = s.mid * down :=
      Nat.div_mul_cancel (Nat.dvd_of_mod_eq_zero exactly)
    have mid : ((s.mid * down / up : ℕ) : ℚ) * (up / down) = s.mid := by
      rw [← mul_div_assoc, ← Nat.cast_mul, whole, Nat.cast_mul, mul_div_cancel_right₀ _ some_down]
    rw [mid]
    exact proper.has_mid
  · split at found
    · rename_i both
      rw [Bool.and_eq_true] at both
      cases found
      split
      · exact fits _ both.1
      · exact fits _ both.2
    · split at found
      · rename_i upper
        cases found
        exact fits _ upper
      · split at found
        · rename_i lower
          cases found
          exact fits _ lower
        · cases found

/-- A grid that is finer than the span has something in it. -/
theorem onGrid_isSome {half : Nat} {unit : Int} (proper : s.Proper) (pos : 0 < half)
    (fine : (10 : ℚ) ^ unit * half < s.high - s.low) : (onGrid s half unit).isSome = true := by
  have some_down : 0 < (if 0 ≤ unit then 1 else Nat.pow 10 (-unit).toNat : ℕ) := by
    split
    · decide
    · exact Nat.pow_pos (by decide)
  have some_up : 0 < (if 0 ≤ unit then Nat.pow 10 unit.toNat * half else half : ℕ) := by
    split
    · exact Nat.mul_pos (Nat.pow_pos (by decide)) pos
    · exact pos
  unfold onGrid
  rw [← grid_ratio] at fine
  dsimp only
  generalize (if 0 ≤ unit then Nat.pow 10 unit.toNat * half else half : ℕ) = up at fine some_up ⊢
  generalize (if 0 ≤ unit then 1 else Nat.pow 10 (-unit).toNat : ℕ) = down at fine some_down ⊢
  have wide : s.low * down + up < s.high * down := by
    rw [div_lt_iff₀ (Nat.cast_pos.2 some_down), sub_mul, lt_sub_iff_add_lt'] at fine
    exact_mod_cast fine
  have split := Nat.div_add_mod' (s.mid * down) up
  have small := Nat.mod_lt (s.mid * down) some_up
  have low := Nat.mul_lt_mul_of_pos_right proper.low some_down
  have high := Nat.mul_lt_mul_of_pos_right proper.high some_down
  generalize s.mid * down / up = q at split ⊢
  generalize s.mid * down % up = r at split small ⊢
  have next : (q + 1) * up = q * up + up := Nat.succ_mul q up
  split_ifs with exactly both near upper lower
  · rfl
  · rfl
  · rfl
  · rfl
  · rfl
  · exfalso
    unfold Span.holds at lower upper
    split at lower <;>
      simp_all only [Bool.and_eq_true, decide_eq_true_eq, not_and, Nat.not_le, Nat.not_lt,
        if_true, Bool.false_eq_true, if_false] <;> omega

/-! ## The search -/

theorem search_found {half : Nat} {place : Int} {count fuel : Nat}
    (reach : ∃ i < fuel, (onGrid s half (place - (count + i : Nat))).isSome = true) :
    onGrid s half (search s half place count fuel).2 =
      some (search s half place count fuel).1 := by
  induction fuel generalizing count with
  | zero =>
    obtain ⟨i, lt, -⟩ := reach
    exact absurd lt (Nat.not_lt_zero i)
  | succ fuel ih =>
    unfold search
    cases found : onGrid s half (place - count) with
    | some n => exact found
    | none =>
      refine ih ?_
      obtain ⟨i, lt, some⟩ := reach
      cases i with
      | zero =>
        rw [Nat.add_zero, found] at some
        cases some
      | succ i =>
        refine ⟨i, Nat.lt_of_succ_lt_succ lt, ?_⟩
        rwa [Nat.add_assoc, Nat.add_comm 1]

theorem dropZeros_value (n : Nat) (e : Int) (fuel : Nat) :
    ((dropZeros n e fuel).1 : ℚ) * (10 : ℚ) ^ (dropZeros n e fuel).2 = n * (10 : ℚ) ^ e := by
  induction fuel generalizing n e with
  | zero => rfl
  | succ fuel ih =>
    unfold dropZeros
    split
    · rename_i ends
      have whole : ((n / 10 : ℕ) : ℚ) * 10 = n := by
        exact_mod_cast Nat.div_mul_cancel (Nat.dvd_of_mod_eq_zero ends.1)
      rw [ih, zpow_add₀ (by norm_num), zpow_one, ← whole]
      ring
    · rfl

theorem lt_pow_digits (n : Nat) : n < 10 ^ (digits n).length := by
  induction n using Nat.strongRecOn with
  | ind n ih =>
    rw [digits]
    split
    · rename_i lt
      simpa using lt
    · rename_i big
      have front := ih (n / 10) (by omega)
      rw [List.length_append, List.length_singleton, Nat.pow_succ]
      omega

theorem pow_digits_le {n : Nat} (pos : 0 < n) : 10 ^ ((digits n).length - 1) ≤ n := by
  induction n using Nat.strongRecOn with
  | ind n ih =>
    rw [digits]
    split
    · exact pos
    · rename_i big
      have front := ih (n / 10) (by omega) (by omega)
      have some : (digits (n / 10)).length ≠ 0 := fun none =>
        Text.digits_ne_nil _ (List.length_eq_zero_iff.1 none)
      have length : (digits (n / 10)).length = (digits (n / 10)).length - 1 + 1 := by omega
      rw [List.length_append, List.length_singleton, Nat.add_sub_cancel, length, Nat.pow_succ]
      omega

/-- The leading place is not above the number's own. -/
theorem leadingPlace_le {mid half : Nat} (pos : 0 < mid) (some : 0 < half) :
    (10 : ℚ) ^ (leadingPlace mid half - 1) * half ≤ mid := by
  have ten : (10 : ℚ) ≠ 0 := by norm_num
  unfold leadingPlace
  split
  · rename_i le
    have quotient : 0 < mid / half := Nat.div_pos le some
    have power := pow_digits_le quotient
    have length : ((digits (mid / half)).length : Int) - 1 =
        ((digits (mid / half)).length - 1 : ℕ) := by
      have none : (digits (mid / half)).length ≠ 0 := fun none =>
        Text.digits_ne_nil _ (List.length_eq_zero_iff.1 none)
      omega
    rw [length, zpow_natCast]
    have whole := (Nat.mul_le_mul_right half power).trans (Nat.div_mul_le_self mid half)
    exact_mod_cast whole
  · dsimp only
    have bound := lt_pow_digits ((half + mid - 1) / mid)
    have inverse : half ≤ mid * ((half + mid - 1) / mid) := by
      have split := Nat.div_add_mod (half + mid - 1) mid
      have small := Nat.mod_lt (half + mid - 1) pos
      omega
    generalize (digits ((half + mid - 1) / mid)).length = k at bound ⊢
    split
    · have power : half ≤ mid * 10 ^ k := inverse.trans (Nat.mul_le_mul_left mid bound.le)
      have exponent : (1 : Int) - k - 1 = -k := by omega
      rw [exponent, zpow_neg, zpow_natCast, inv_mul_le_iff₀ (by positivity), mul_comm]
      exact_mod_cast power
    · rename_i power
      rw [Nat.not_lt, Nat.pow_eq] at power
      cases k with
      | zero =>
        have one : (10 : ℚ) ^ (2 - ((0 : ℕ) : Int) - 1) = 10 := by norm_num
        have none : (half + mid - 1) / mid = 0 := by omega
        rw [none] at inverse
        omega
      | succ k =>
        have exponent : (2 : Int) - (k + 1 : ℕ) - 1 = -k := by omega
        rw [exponent, zpow_neg, zpow_natCast, inv_mul_le_iff₀ (by positivity), mul_comm]
        exact_mod_cast power

/-! ## Spans of numbers -/

theorem step_pos (x : Binary64) :
    0 < (if x.fractionBits = 0 ∧ 1 < x.exponentBits then 2 ^ x.scale / 2 else 2 ^ x.scale) := by
  have some := Nat.two_pow_pos x.scale
  split
  · rename_i narrow
    have scaled : 2 ^ 1 ≤ 2 ^ x.scale := by
      refine Nat.pow_le_pow_right (by decide) ?_
      have := narrow.2
      unfold Binary64.scale
      omega
    omega
  · exact some

theorem span_proper (nonzero : x.isZero ≠ true) : x.span.Proper := by
  have some := Nat.two_pow_pos x.scale
  have below := x.step_pos
  have mid : 0 < 2 * x.significand * 2 ^ x.scale :=
    Nat.mul_pos (Nat.mul_pos (by decide) (significand_pos nonzero)) some
  unfold span
  simp only [Nat.shiftLeft_eq, Nat.one_mul]
  constructor <;> dsimp only <;> omega

theorem span_bounds (nonzero : x.isZero ≠ true) :
    2 ^ x.scale ≤ x.span.low ∧ x.span.high < 2 ^ 54 * 2 ^ x.scale ∧
      x.span.mid < 10 ^ 16 * (x.span.high - x.span.low) := by
  have some := Nat.two_pow_pos x.scale
  have lt := x.significand_lt
  have one : 1 * 2 ^ x.scale ≤ x.significand * 2 ^ x.scale :=
    Nat.mul_le_mul_right _ (significand_pos nonzero)
  have most : (x.significand + 1) * 2 ^ x.scale ≤ 2 ^ 53 * 2 ^ x.scale := Nat.mul_le_mul_right _ lt
  have mid : 2 * x.significand * 2 ^ x.scale = 2 * (x.significand * 2 ^ x.scale) := by ring
  rw [Nat.succ_mul] at most
  unfold span
  simp only [Nat.shiftLeft_eq, Nat.one_mul, mid]
  split
  · rename_i narrow
    have significand : x.significand = 2 ^ 52 := by
      rw [Binary64.significand, if_neg (by omega), narrow.1]
      decide
    rw [significand] at one most ⊢
    omega
  · omega

/-- The search finds a decimal in the span. -/
theorem shortest_has (nonzero : x.isZero ≠ true) :
    x.span.Has ((x.shortest.1 : ℚ) * (10 : ℚ) ^ x.shortest.2 * ((1 <<< 1075 : ℕ) : ℚ)) := by
  have proper := span_proper nonzero
  have one_shifted : ∀ k, 0 < 1 <<< k := fun k => by
    rw [Nat.shiftLeft_eq, Nat.one_mul]
    exact Nat.two_pow_pos k
  have some := one_shifted 1075
  unfold shortest
  generalize 1 <<< 1075 = half at some ⊢
  have leading := leadingPlace_le (Nat.zero_lt_of_lt proper.low) some
  have narrow : (x.span.mid : ℚ) < 10 ^ 16 * (x.span.high - x.span.low) := by
    have bound := (span_bounds nonzero).2.2
    rw [← Nat.cast_sub (proper.low.trans proper.high).le]
    exact_mod_cast bound
  have fine : (10 : ℚ) ^ (leadingPlace x.span.mid half - (1 + 16 : ℕ)) * half <
      x.span.high - x.span.low := by
    have split : (10 : ℚ) ^ (leadingPlace x.span.mid half - (1 + 16 : ℕ)) * 10 ^ 16 =
        10 ^ (leadingPlace x.span.mid half - 1) := by
      rw [← zpow_natCast (10 : ℚ) 16, ← zpow_add₀ (by norm_num)]
      congr 1
      omega
    rw [← split] at leading
    generalize (10 : ℚ) ^ (leadingPlace x.span.mid half - (1 + 16 : ℕ)) = power at leading ⊢
    linarith
  have reach : ∃ i < 20, (onGrid x.span half (leadingPlace x.span.mid half - (1 + i : ℕ))).isSome :=
    ⟨16, by decide, onGrid_isSome proper some fine⟩
  have found := search_found reach
  dsimp only
  rw [dropZeros_value, mul_assoc]
  exact onGrid_has proper found

/-! ## Reading -/

theorem one_shiftLeft (k : ℕ) : ((1 <<< k : ℕ) : ℚ) = 2 ^ k := by
  rw [Nat.shiftLeft_eq, Nat.one_mul, Nat.cast_pow, Nat.cast_ofNat]

theorem two_pow_le (k : ℕ) : (2 : ℚ) ^ (3 * k) ≤ 10 ^ k := by
  rw [pow_mul]
  exact pow_le_pow_left₀ (by norm_num) (by norm_num) k

/-- A decimal in the span of a number lies between the bounds at which the length decides. -/
theorem length_of_has (finite : x.IsFinite) (nonzero : x.isZero ≠ true) {d : Decimal}
    (has : x.span.Has (d.value * ((1 <<< 1075 : ℕ) : ℚ))) :
    0 < d.mantissa ∧ -400 ≤ d.exponent + (digits d.mantissa).length ∧
      d.exponent + (digits d.mantissa).length ≤ 400 := by
  obtain ⟨low, high, -⟩ := has
  obtain ⟨least, most, -⟩ := span_bounds nonzero
  rw [one_shiftLeft] at low high
  have one_le : 1 ≤ d.value * 2 ^ 1075 := by
    have one : 1 ≤ x.span.low := Nat.le_trans (Nat.two_pow_pos x.scale) least
    have one' : (1 : ℚ) ≤ x.span.low := by exact_mod_cast one
    exact one'.trans low
  have mantissa : 0 < d.mantissa := by
    rcases Nat.eq_zero_or_pos d.mantissa with zero | pos
    · rw [Decimal.value, zero] at one_le
      norm_num at one_le
    · exact pos
  refine ⟨mantissa, ?_, ?_⟩
  · by_contra short
    have small : d.value ≤ (10 : ℚ) ^ (-401 : ℤ) := by
      have digits_le : (d.mantissa : ℚ) ≤ (10 : ℚ) ^ ((digits d.mantissa).length : ℤ) := by
        rw [zpow_natCast]
        exact_mod_cast (lt_pow_digits d.mantissa).le
      calc d.value ≤ (10 : ℚ) ^ ((digits d.mantissa).length : ℤ) * 10 ^ d.exponent :=
            mul_le_mul_of_nonneg_right digits_le (by positivity)
        _ = (10 : ℚ) ^ (d.exponent + (digits d.mantissa).length) := by
            rw [← zpow_add₀ (by norm_num), Int.add_comm]
        _ ≤ (10 : ℚ) ^ (-401 : ℤ) := zpow_le_zpow_right₀ (by norm_num) (by omega)
    have bound : (2 : ℚ) ^ 1075 ≤ 10 ^ 359 :=
      (pow_le_pow_right₀ (by norm_num) (by omega)).trans (two_pow_le 359)
    have less : (10 : ℚ) ^ (-401 : ℤ) * 10 ^ 359 < 1 := by
      rw [← zpow_natCast (10 : ℚ) 359, ← zpow_add₀ (by norm_num)]
      exact zpow_lt_one_of_neg₀ (by norm_num) (by omega)
    have product := mul_le_mul small bound (by positivity) (by positivity)
    exact absurd (one_le.trans product) (not_le.2 less)
  · by_contra long
    have large : (10 : ℚ) ^ 342 ≤ d.value := by
      have le_digits : (10 : ℚ) ^ ((digits d.mantissa).length - 1 : ℕ) ≤ d.mantissa := by
        exact_mod_cast pow_digits_le mantissa
      calc (10 : ℚ) ^ 342 = (10 : ℚ) ^ (342 : ℤ) := (zpow_natCast 10 342).symm
        _ ≤ (10 : ℚ) ^ (((digits d.mantissa).length - 1 : ℕ) + d.exponent : ℤ) :=
            zpow_le_zpow_right₀ (by norm_num) (by omega)
        _ = (10 : ℚ) ^ ((digits d.mantissa).length - 1 : ℕ) * 10 ^ d.exponent := by
            rw [zpow_add₀ (by norm_num), zpow_natCast]
        _ ≤ d.value := mul_le_mul_of_nonneg_right le_digits (by positivity)
    have top : (x.span.high : ℚ) < 2 ^ 54 * 2 ^ x.scale := by exact_mod_cast most
    have scale : (2 : ℚ) ^ x.scale ≤ 2 ^ 2045 := pow_le_pow_right₀ (by norm_num) finite.scale_le
    have some : (0 : ℚ) ≤ 2 ^ 1075 := by positivity
    have bottom := mul_le_mul_of_nonneg_right ((two_pow_le 342).trans large) some
    have chain : (2 : ℚ) ^ (3 * 342) * 2 ^ 1075 < 2 ^ 54 * 2 ^ 2045 :=
      (bottom.trans high).trans_lt
        (top.trans_le (mul_le_mul_of_nonneg_left scale (by positivity)))
    rw [← pow_add, ← pow_add, pow_lt_pow_iff_right₀ (by norm_num)] at chain
    omega

theorem ofDecimal_of_has (finite : x.IsFinite) (nonzero : x.isZero ≠ true) (neg : Bool)
    {d : Decimal} (has : x.span.Has (d.value * ((1 <<< 1075 : ℕ) : ℚ))) :
    ofDecimal neg d = ofParts neg x.magnitude := by
  obtain ⟨mantissa, short, long⟩ := length_of_has finite nonzero has
  have shifted : ∀ n k : ℕ, 2 * n <<< k = n * 1 <<< (k + 1) := by
    intro n k
    rw [Nat.shiftLeft_eq, Nat.shiftLeft_eq, Nat.pow_succ]
    ring
  have inside : ∀ num den : ℕ, 0 < den → d.value = num / den →
      x.span.holds (2 * num <<< 1074) den = true := by
    intro num den pos ratio
    rw [Span.holds_iff pos, shifted, Nat.cast_mul, mul_div_right_comm, ← ratio]
    exact has
  unfold ofDecimal
  dsimp only
  rw [if_neg mantissa.ne', if_neg (by omega), if_neg (by omega)]
  split
  · rename_i whole
    refine ofRatio_of_holds finite neg Nat.one_pos (inside _ 1 Nat.one_pos ?_)
    rw [Decimal.value, Nat.pow_eq, Nat.cast_mul, Nat.cast_pow, Nat.cast_one, div_one,
      ← zpow_natCast, Int.toNat_of_nonneg whole]
    rfl
  · rename_i part
    have pos : 0 < Nat.pow 10 (-d.exponent).toNat := Nat.pow_pos (by decide)
    refine ofRatio_of_holds finite neg pos (inside _ _ pos ?_)
    rw [Decimal.value, Nat.pow_eq, Nat.cast_pow, ← zpow_natCast,
      Int.toNat_of_nonneg (by omega), zpow_neg, div_inv_eq_mul]
    rfl

theorem magnitude_of_isZero (zero : x.isZero = true) : x.magnitude = 0 := by
  simp only [isZero, Bool.and_eq_true, beq_iff_eq] at zero
  rw [magnitude, zero.1, zero.2, Nat.zero_mul]

theorem magnitude_of_isInfinite (infinite : x.isInfinite = true) : x.magnitude = 0x7ff <<< 52 := by
  simp only [isInfinite, Bool.and_eq_true, beq_iff_eq] at infinite
  rw [magnitude, infinite.1, infinite.2]
  decide

theorem read_unsigned (nan : x.isNaN ≠ true) (neg : Bool) :
    Text.Solid (if x.isInfinite = true then ['i', 'n', 'f'] else x.unsignedChars) ∧
      read (if neg = true then '-' :: (if x.isInfinite = true then ['i', 'n', 'f'] else x.unsignedChars)
        else (if x.isInfinite = true then ['i', 'n', 'f'] else x.unsignedChars)) =
        .ok (ofParts neg x.magnitude) := by
  split
  · rename_i infinite
    rw [magnitude_of_isInfinite infinite]
    refine ⟨Text.Solid.cons rfl (Text.Solid.cons rfl (Text.Solid.cons rfl (by simp [Text.Solid]))), ?_⟩
    cases neg <;> rfl
  · rename_i infinite
    by_cases zero : x.isZero = true
    · rw [unsignedChars, if_pos zero, magnitude_of_isZero zero]
      exact ⟨writes_zero.solid, writes_zero.read_signed neg⟩
    · obtain ⟨d, writes, value⟩ := unsignedChars_writes zero
      have has := shortest_has zero
      rw [← value] at has
      rw [writes.read_signed neg, ofDecimal_of_has (isFinite_of nan infinite) zero neg has]
      exact ⟨writes.solid, rfl⟩

/-- A number as it is told apart by its text: what is not a number is one and the same. -/
def canonical (x : Binary64) : Binary64 := if x.isNaN = true then nan false else x

theorem read_chars (x : Binary64) : Text.Solid x.chars ∧ read x.chars = .ok x.canonical := by
  unfold chars canonical
  split
  · exact ⟨Text.Solid.cons rfl (Text.Solid.cons rfl (Text.Solid.cons rfl (by simp [Text.Solid]))), rfl⟩
  · rename_i nan
    obtain ⟨solid, back⟩ := read_unsigned nan x.negative
    rw [ofParts_magnitude] at back
    dsimp only
    refine ⟨?_, back⟩
    split
    · exact Text.Solid.cons rfl solid
    · exact solid

end MooCore.Binary64

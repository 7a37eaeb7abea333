import Mathlib.Algebra.Order.Field.Power
import Mathlib.Data.Rat.Cast.Order
import Mathlib.Tactic.FieldSimp
import SourceScan.Proofs.Magnitudes

/-!
# Correct rounding

The specification of rounding is on the bits: `value` reads sign, exponent and fraction off them as
the floating point format defines them, and `RoundsTo q x` says that no finite number is closer to
`q` than `x`, that `x` is even if another one is as close, and that `x` is the infinity from
`overflowThreshold` on, the middle between the largest number and the one that would come next.

**`roundsTo_iff_eq_ofDecimal`**: decimals are correctly rounded, and `RoundsTo` leaves only one
number. The proof has two halves. One shows that rounding to a step of the scale is what `RoundsTo`
asks for, with the overflow at the step of the infinity (**`RoundsToStep.roundsTo`**,
**`RoundsToStep.eq_of_roundsTo`**). The other shows that the quotient is rounded to a step
(**`roundsToStep_roundHalfEven`**).
-/

namespace SourceScan

namespace Binary64

/-! ## What the bits say -/

/-- The eleven bits of the exponent. -/
def exponentField (x : Binary64) : Nat := x.bits.toNat / 2 ^ 52 % 2 ^ 11

/-- The 52 bits of the fraction. The last of them is the last bit of the significand. -/
def fraction (x : Binary64) : Nat := x.bits.toNat % 2 ^ 52

/-- The highest exponent is that of the infinities and of what is not a number. -/
def IsFinite (x : Binary64) : Prop := x.exponentField ≠ 2047

instance (x : Binary64) : Decidable x.IsFinite :=
  inferInstanceAs (Decidable (x.exponentField ≠ 2047))

/-- The distance of a finite number from zero. The lowest exponent has no leading one. -/
def size (x : Binary64) : ℚ :=
  if x.exponentField = 0 then (2 : ℚ) ^ (-1022 : ℤ) * (x.fraction / 2 ^ 52)
  else (2 : ℚ) ^ ((x.exponentField : ℤ) - 1023) * (1 + x.fraction / 2 ^ 52)

/-- **The value of a finite number.** -/
def value (x : Binary64) : ℚ := if x.isNegative then -x.size else x.size

/-- The middle between the largest number, `(2 ^ 53 - 1) * 2 ^ 971`, and `2 ^ 1024`. -/
def overflowThreshold : ℚ := 2 ^ 1024 - 2 ^ 970

/-- **The number nearest to a fraction that is not negative.** -/
structure RoundsTo (q : ℚ) (x : Binary64) : Prop where
  unsigned : x.isNegative = false
  overflow : overflowThreshold ≤ q → x = infinity
  finite : q < overflowThreshold → x.IsFinite
  nearest : q < overflowThreshold → ∀ y : Binary64, y.IsFinite → |x.value - q| ≤ |y.value - q|
  tie : q < overflowThreshold → ∀ y : Binary64, y.IsFinite → y.value ≠ x.value →
    |y.value - q| = |x.value - q| → Even x.fraction

/-! ## Numbers and steps -/

/-- The number at a step of the scale; behind the last one comes the infinity. -/
def ofStep (m : Nat) : Binary64 := ⟨UInt64.ofNat (min m infinityBits)⟩

@[simp] theorem toNat_bits_ofStep (m : Nat) : (ofStep m).bits.toNat = min m infinityBits := by
  refine UInt64.toNat_ofNat_of_lt' ?_
  have hsize : infinityBits < UInt64.size := by decide
  omega

@[simp] theorem magnitude_ofStep (m : Nat) : (ofStep m).magnitude = min m infinityBits := by
  rw [magnitude, toNat_bits_ofStep, Nat.pow_eq, infinityBits]
  omega

@[simp] theorem isNegative_ofStep (m : Nat) : (ofStep m).isNegative = false := by
  rw [isNegative, toNat_bits_ofStep, Nat.pow_eq, infinityBits]
  simp

@[simp] theorem isNaN_ofStep (m : Nat) : (ofStep m).isNaN = false := by
  rw [isNaN, magnitude_ofStep]
  simp

/-- From the step of the infinity on, all numbers are the infinity. -/
theorem ofStep_eq_infinity_iff {m : Nat} : ofStep m = infinity ↔ infinityBits ≤ m := by
  constructor
  · intro h
    have hmagnitude := congrArg magnitude h
    rw [magnitude_ofStep, show infinity.magnitude = infinityBits by decide] at hmagnitude
    omega
  · intro h
    rw [ofStep, infinity, min_eq_right h]

/-- Zero is at the first step. -/
theorem ofStep_eq_zero_iff {m : Nat} : ofStep m = ⟨0⟩ ↔ m = 0 := by
  constructor
  · intro h
    have hmagnitude := congrArg magnitude h
    rw [magnitude_ofStep, show magnitude ⟨0⟩ = 0 by decide, infinityBits] at hmagnitude
    omega
  · rintro rfl
    rfl

/-- A number without a sign that is no NaN is the number at its step. -/
theorem ofStep_magnitude {x : Binary64} (hsign : x.isNegative = false)
    (hle : x.magnitude ≤ infinityBits) : ofStep x.magnitude = x := by
  obtain ⟨bits⟩ := x
  have hclear : bits.toNat < 2 ^ 63 := by simpa [isNegative, Nat.pow_eq] using hsign
  have hbits : magnitude ⟨bits⟩ = bits.toNat := by
    rw [magnitude, Nat.pow_eq]
    exact Nat.mod_eq_of_lt hclear
  rw [ofStep, min_eq_left hle, hbits, UInt64.ofNat_toNat]

/-- The exponent is what the magnitude has above the fraction. -/
theorem exponentField_eq (x : Binary64) : x.exponentField = x.magnitude / 2 ^ 52 := by
  rw [exponentField, magnitude, Nat.pow_eq]
  omega

theorem fraction_eq (x : Binary64) : x.fraction = x.magnitude % 2 ^ 52 := by
  rw [fraction, magnitude, Nat.pow_eq]
  omega

/-- The finite numbers are those below the step of the infinity. -/
theorem isFinite_iff {x : Binary64} : x.IsFinite ↔ x.magnitude < infinityBits := by
  have hlt : x.magnitude < 2 ^ 63 := Nat.mod_lt _ (by decide)
  rw [IsFinite, exponentField_eq, infinityBits]
  omega

/-- The last bit of the fraction is the last bit of the step. -/
theorem even_fraction_iff {x : Binary64} : Even x.fraction ↔ Even x.magnitude := by
  rw [fraction_eq, Nat.even_iff, Nat.even_iff]
  omega

/-- **The format and the scale agree.** `size` is read off exponent and fraction, and `unitsAt`
counts steps. -/
theorem size_mul_units (x : Binary64) : x.size * 2 ^ unitBits = unitsAt x.magnitude := by
  have hunit : (2 : ℚ) ^ unitBits = 2 ^ 1022 * 2 ^ 52 := pow_add 2 1022 52
  have hlow : (2 : ℚ) ^ 1022 ≠ 0 := by positivity
  rw [size, unitsAt, exponentField_eq, fraction_eq, hunit]
  by_cases hfield : x.magnitude / 2 ^ 52 = 0
  · have hfraction : x.magnitude % 2 ^ 52 = x.magnitude := by omega
    rw [if_pos hfield, if_pos hfield, hfraction, zpow_neg, zpow_ofNat]
    field_simp
  · obtain ⟨k, hk⟩ := Nat.exists_eq_succ_of_ne_zero hfield
    have hexponent : ((x.magnitude / 2 ^ 52 : Nat) : ℤ) - 1023 = (k : ℤ) - 1022 := by omega
    rw [if_neg hfield, if_neg hfield, hexponent, zpow_sub₀ two_ne_zero, zpow_natCast, zpow_ofNat,
      hk, Nat.succ_sub_one]
    push_cast
    field_simp
    ring

/-- Two numbers of one size differ in their sign at most. -/
theorem size_inj {x y : Binary64} : x.size = y.size ↔ x.magnitude = y.magnitude := by
  have hpos : (2 : ℚ) ^ unitBits ≠ 0 := by positivity
  rw [← mul_left_inj' hpos, size_mul_units, size_mul_units, unitsAt_inj_cast]

theorem size_eq_zero_iff {x : Binary64} : x.size = 0 ↔ x.magnitude = 0 := by
  have hpos : (2 : ℚ) ^ unitBits ≠ 0 := by positivity
  rw [← mul_eq_zero_iff_right hpos, size_mul_units, Nat.cast_eq_zero,
    strictMono_unitsAt.injective.eq_iff' unitsAt_zero]

theorem size_nonneg (x : Binary64) : 0 ≤ x.size := by
  rw [size]
  split
  all_goals positivity

theorem value_of_unsigned {x : Binary64} (h : x.isNegative = false) : x.value = x.size :=
  if_neg (by simp [h])

/-- A sign brings no number closer to a fraction that is not negative. -/
theorem abs_size_sub_le {x : Binary64} {q : ℚ} (hq : 0 ≤ q) : |x.size - q| ≤ |x.value - q| := by
  rw [value]
  split
  · have hsize := x.size_nonneg
    have hsign : -x.size - q ≤ 0 := by linarith
    rw [abs_of_nonpos hsign, abs_le]
    constructor <;> linarith
  · exact le_rfl

/-- Distances from a fraction, in units. -/
theorem abs_size_sub_mul_units (x : Binary64) (q : ℚ) : |x.size - q| * 2 ^ unitBits =
    |(unitsAt x.magnitude : ℚ) - q * 2 ^ unitBits| := by
  have hpos : (0 : ℚ) < 2 ^ unitBits := by positivity
  rw [← size_mul_units, ← sub_mul, abs_mul, abs_of_pos hpos]

/-! ## The ends of the scale -/

/-- The threshold is the middle before the infinity. -/
theorem two_mul_overflowThreshold : 2 * (overflowThreshold * 2 ^ unitBits) =
    (unitsAt (infinityBits - 1) + unitsAt infinityBits : ℚ) := by
  have hlast : infinityBits - 1 = (unitBits + 971) * 2 ^ 52 + (2 ^ 53 - 1) := by decide
  have hnext : infinityBits = (unitBits + 971) * 2 ^ 52 + 2 ^ 53 := by decide
  have htop : (2 : ℚ) ^ 1024 = 2 ^ 54 * 2 ^ 970 := pow_add 2 54 970
  have hscale : (2 : ℚ) ^ 971 = 2 * 2 ^ 970 := pow_succ' 2 970
  rw [overflowThreshold, hlast, hnext, htop, unitsAt_binade (by omega) (by omega),
    unitsAt_binade (by omega) (by omega)]
  push_cast
  rw [pow_add, hscale]
  generalize (2 : ℚ) ^ 970 = gap
  ring

namespace RoundsToStep

variable {q : ℚ} {m : Nat}

/-- **Overflow.** The last middle is `overflowThreshold`, and the step before it is odd, so the
middle itself goes up. -/
theorem infinityBits_le_iff (h : RoundsToStep (q * 2 ^ unitBits) m) :
    infinityBits ≤ m ↔ overflowThreshold ≤ q := by
  have hpos : (0 : ℚ) < 2 ^ unitBits := by positivity
  have hodd : Odd (infinityBits - 1) := by decide
  have hmiddle := two_mul_overflowThreshold
  have hlast : infinityBits - 1 + 1 = infinityBits := rfl
  rw [← hlast, Nat.succ_le_iff, h (infinityBits - 1), Passes, hlast, ← hmiddle]
  constructor
  · rintro (hlt | ⟨heq, -⟩)
    · exact le_of_mul_le_mul_right (by linarith) hpos
    · exact le_of_mul_le_mul_right (by linarith) hpos
  · intro hle
    -- above the middle the step is passed, and on it because it is odd
    rcases hle.lt_or_eq with hlt | rfl
    · have hscaled := mul_lt_mul_of_pos_right hlt hpos
      left
      linarith
    · exact .inr ⟨rfl, hodd⟩

/-- **Underflow.** The first middle is half a unit, and goes down to zero, which is even. -/
theorem eq_zero_iff (h : RoundsToStep (q * 2 ^ unitBits) m) : m = 0 ↔ q ≤ 1 / 2 ^ 1075 := by
  have hunit : (2 : ℚ) ^ 1075 = 2 * 2 ^ unitBits := pow_succ' 2 1074
  have hpos : (0 : ℚ) < 2 * 2 ^ unitBits := by positivity
  rw [← not_iff_not, ← ne_eq, ← Nat.pos_iff_ne_zero, h 0, Passes, hunit, le_div_iff₀ hpos]
  simp only [unitsAt_zero, unitsAt_one, Nat.cast_zero, Nat.cast_one, zero_add, Nat.not_odd_zero,
    and_false, or_false, not_le]
  constructor <;> intro hlt <;> linarith

/-- Below the threshold a fraction is rounded to the step of a finite number. -/
theorem lt_infinityBits (h : RoundsToStep (q * 2 ^ unitBits) m) (hlt : q < overflowThreshold) :
    m < infinityBits :=
  not_le.1 fun hle => not_le.2 hlt (h.infinityBits_le_iff.1 hle)

section Nearest

variable (h : RoundsToStep (q * 2 ^ unitBits) m) (hm : m < infinityBits)
include h hm

/-- No number is closer to a fraction than the one at the step it is rounded to. -/
theorem abs_value_sub_le (y : Binary64) : |(ofStep m).value - q| ≤ |y.size - q| := by
  have hpos : (0 : ℚ) < 2 ^ unitBits := by positivity
  refine le_of_mul_le_mul_right ?_ hpos
  rw [value_of_unsigned (isNegative_ofStep m), abs_size_sub_mul_units, abs_size_sub_mul_units,
    magnitude_ofStep, min_eq_left hm.le]
  exact h.abs_sub_le y.magnitude

variable (hq : 0 ≤ q)
include hq

/-- A number that is equally near lies on the scale equally near. -/
theorem abs_unitsAt_sub_eq {y : Binary64} (heq : |y.value - q| = |(ofStep m).value - q|) :
    |(unitsAt y.magnitude : ℚ) - q * 2 ^ unitBits| = |(unitsAt m : ℚ) - q * 2 ^ unitBits| := by
  have hsize : |y.size - q| = |(ofStep m).size - q| := by
    rw [← value_of_unsigned (isNegative_ofStep m)]
    exact le_antisymm (heq ▸ abs_size_sub_le hq) (h.abs_value_sub_le hm y)
  have hunits := congrArg (· * (2 : ℚ) ^ unitBits) hsize
  simpa only [abs_size_sub_mul_units, magnitude_ofStep, min_eq_left hm.le] using hunits

/-- Of two numbers that are equally near, the one that is rounded to is even. -/
theorem even_of_tie {y : Binary64} (hne : y.value ≠ (ofStep m).value)
    (heq : |y.value - q| = |(ofStep m).value - q|) : Even m := by
  have hstep := h.abs_unitsAt_sub_eq hm hq heq
  by_cases hsame : y.magnitude = m
  · -- `y` has the size of the number and the other sign, so it is as near only to zero or if it is
    -- zero
    have hsize : y.size = (ofStep m).size := by
      rw [size_inj, hsame, magnitude_ofStep, min_eq_left hm.le]
    rw [value_of_unsigned (isNegative_ofStep m), value, hsize] at hne heq
    split at hne
    · rw [if_pos ‹_›] at heq
      suffices m = 0 by simp [this]
      rcases abs_eq_abs.1 heq with hzero | hzero
      · have hsize : (ofStep m).size = 0 := by linarith
        rwa [size_eq_zero_iff, magnitude_ofStep, min_eq_left hm.le] at hsize
      · have hq : q = 0 := by linarith
        rw [h.eq_zero_iff, hq]
        positivity
    · exact absurd rfl hne
  · exact (h.tie hsame hstep).1

end Nearest

/-- **Rounding to the nearest number** is rounding to a step and cutting the scale off at the
infinity. -/
theorem roundsTo (h : RoundsToStep (q * 2 ^ unitBits) m) (hq : 0 ≤ q) : RoundsTo q (ofStep m) where
  unsigned := isNegative_ofStep m
  overflow hle := ofStep_eq_infinity_iff.2 (h.infinityBits_le_iff.2 hle)
  finite hlt := by
    have hm := h.lt_infinityBits hlt
    rwa [isFinite_iff, magnitude_ofStep, min_eq_left hm.le]
  nearest hlt y _ := (h.abs_value_sub_le (h.lt_infinityBits hlt) y).trans (abs_size_sub_le hq)
  tie hlt y _ hne heq := by
    have hm := h.lt_infinityBits hlt
    rw [even_fraction_iff, magnitude_ofStep, min_eq_left hm.le]
    exact h.even_of_tie hm hq hne heq

/-- There is no other number nearest to the fraction. -/
theorem eq_of_roundsTo (h : RoundsToStep (q * 2 ^ unitBits) m) (hq : 0 ≤ q) {x : Binary64}
    (hx : RoundsTo q x) : x = ofStep m := by
  rcases le_or_gt overflowThreshold q with hle | hlt
  · rw [hx.overflow hle, ofStep_eq_infinity_iff.2 (h.infinityBits_le_iff.2 hle)]
  · have hm := h.lt_infinityBits hlt
    have hfinite := isFinite_iff.1 (hx.finite hlt)
    have hplace := ofStep_magnitude hx.unsigned hfinite.le
    by_contra hne
    have hnear : |(ofStep m).value - q| = |x.value - q| :=
      le_antisymm ((h.roundsTo hq).nearest hlt x (hx.finite hlt))
        (hx.nearest hlt _ ((h.roundsTo hq).finite hlt))
    -- two numbers equally near would both be even, and then there is one between them
    have hsteps := h.abs_unitsAt_sub_eq hm hq hnear.symm
    have hvalues : (ofStep m).value ≠ x.value := by
      rw [value_of_unsigned (isNegative_ofStep m), value_of_unsigned hx.unsigned, Ne, size_inj,
        magnitude_ofStep, min_eq_left hm.le]
      exact fun hsame => hne (by rw [← hplace, hsame])
    have heven := hx.tie hlt _ ((h.roundsTo hq).finite hlt) hvalues hnear
    have hsame := h.eq_of_even (even_fraction_iff.1 heven) hsteps
    exact hne (by rw [← hplace, hsame])

end RoundsToStep

/-! ## Rounding a quotient -/

/-- Rounding a quotient goes up behind the middle, and on the middle from an odd number. -/
theorem roundHalfEven_cases (m n : Nat) :
    (roundHalfEven m n = m / n ∧ ¬ ((2 * (m / n) + 1) * n < 2 * m ∨
        ((2 * (m / n) + 1) * n = 2 * m ∧ Odd (m / n)))) ∨
      (roundHalfEven m n = m / n + 1 ∧ ((2 * (m / n) + 1) * n < 2 * m ∨
        ((2 * (m / n) + 1) * n = 2 * m ∧ Odd (m / n)))) := by
  have hdivide : n * (m / n) + m % n = m := Nat.div_add_mod m n
  have hmiddle : (2 * (m / n) + 1) * n = 2 * (n * (m / n)) + n := by ring
  simp only [roundHalfEven, hmiddle, Nat.odd_iff]
  split
  · omega
  · split
    · omega
    · rcases Nat.mod_two_eq_zero_or_one (m / n) with heven | hodd
      · omega
      · omega

/-- Comparing with a middle, in whole numbers. -/
theorem passes_div_iff {m d k : Nat} (hd : 0 < d) : Passes (m / d) k ↔
    (unitsAt k + unitsAt (k + 1)) * d < 2 * m ∨
      ((unitsAt k + unitsAt (k + 1)) * d = 2 * m ∧ Odd k) := by
  have hpos : (0 : ℚ) < d := Nat.cast_pos.2 hd
  rw [Passes, ← mul_div_assoc, lt_div_iff₀ hpos, eq_div_iff hpos.ne']
  norm_cast

/-- **Rounding within a binade** goes to a step. The whole part of the quotient is the significand
of the step before it, so that the two middles to look at are those that `roundHalfEven` compares
with. -/
theorem roundsToStep_roundHalfEven {m d k : Nat} (hd : 0 < d)
    (hlow : k = 0 ∨ 2 ^ 52 ≤ m / (d * 2 ^ k)) (hhigh : m / (d * 2 ^ k) < 2 ^ 53) :
    RoundsToStep (m / d) (k * 2 ^ 52 + roundHalfEven m (d * 2 ^ k)) := by
  have hpos : (0 : ℚ) < d := Nat.cast_pos.2 hd
  have hfloor := Nat.div_mul_le_self m (d * 2 ^ k)
  have hceil : m < (m / (d * 2 ^ k) + 1) * (d * 2 ^ k) := by
    rw [add_mul, one_mul]
    exact Nat.lt_div_mul_add (by positivity)
  have hcases := roundHalfEven_cases m (d * 2 ^ k)
  -- `n` is the significand of the last step before the quotient
  generalize m / (d * 2 ^ k) = n at hlow hhigh hfloor hceil hcases
  have hhere : unitsAt (k * 2 ^ 52 + n) * d = n * (d * 2 ^ k) := by
    rw [unitsAt_binade hlow hhigh.le]
    ring
  have hnext : unitsAt (k * 2 ^ 52 + n + 1) * d = (n + 1) * (d * 2 ^ k) := by
    rw [add_assoc, unitsAt_binade (by omega) (by omega)]
    ring
  have hmiddle : (2 * n + 1) * (d * 2 ^ k) = n * (d * 2 ^ k) + (n + 1) * (d * 2 ^ k) := by ring
  -- steps of a binade are counted from an even one, so a step is odd if its significand is
  have hparity : Odd (k * 2 ^ 52 + n) ↔ Odd n := by
    rw [Nat.odd_iff, Nat.odd_iff]
    omega
  have hpass : Passes (m / d) (k * 2 ^ 52 + n) ↔ (2 * n + 1) * (d * 2 ^ k) < 2 * m ∨
      ((2 * n + 1) * (d * 2 ^ k) = 2 * m ∧ Odd n) := by
    rw [passes_div_iff hd, add_mul, hhere, hnext, hmiddle, hparity]
  rcases hcases with ⟨hround, hstays⟩ | ⟨hround, hpasses⟩
  · rw [hround]
    apply roundsToStep_of_stays
    · rw [le_div_iff₀ hpos]
      exact_mod_cast hhere.le.trans hfloor
    · rwa [hpass]
  · rw [hround, ← add_assoc]
    apply roundsToStep_of_passes
    · rw [div_lt_iff₀ hpos]
      exact_mod_cast hceil.trans_le hnext.ge
    · exact hpass.2 hpasses

/-- A shift that leaves 53 bits of a number, or all of them when there are fewer. -/
theorem div_log2_bounds (m : Nat) :
    (Nat.log2 m - 52 = 0 ∨ 2 ^ 52 ≤ m / 2 ^ (Nat.log2 m - 52)) ∧
      m / 2 ^ (Nat.log2 m - 52) < 2 ^ 53 := by
  rcases Nat.eq_zero_or_pos m with rfl | hm
  · simp
  · rw [Nat.div_lt_iff_lt_mul (by positivity), Nat.le_div_iff_mul_le (by positivity), ← pow_add,
      ← pow_add, ← Nat.log2_lt hm.ne', ← Nat.le_log2 hm.ne']
    omega

/-- **A quotient is rounded** to the number at the step it is rounded to. -/
theorem exists_step_nearestRatio (n : Nat) {d : Nat} (hd : 0 < d) :
    ∃ m, RoundsToStep ((n / d : ℚ) * 2 ^ unitBits) m ∧ nearestRatio n d = ofStep m := by
  obtain ⟨hlow, hhigh⟩ := div_log2_bounds (n * 2 ^ unitBits / d)
  rw [Nat.div_div_eq_div_mul] at hlow hhigh
  have hround := roundsToStep_roundHalfEven hd hlow hhigh
  rw [Nat.cast_mul, Nat.cast_pow, Nat.cast_two, mul_div_right_comm] at hround
  refine ⟨_, hround, ?_⟩
  simp only [nearestRatio, ofStep, Nat.pow_eq]

end Binary64

/-! ## Rounding a decimal -/

/-- The value of a decimal. -/
def Decimal.value (d : Decimal) : ℚ := d.coefficient * 10 ^ d.exponent

/-- Decimals have no sign. -/
theorem Decimal.value_nonneg (d : Decimal) : 0 ≤ d.value := by
  rw [value]
  positivity

namespace Binary64

/-- **A decimal is rounded** to the number at the step its value is rounded to. -/
theorem exists_step_ofDecimal (d : Decimal) :
    ∃ m, RoundsToStep (d.value * 2 ^ unitBits) m ∧ ofDecimal d = ofStep m := by
  obtain ⟨coefficient, exponent⟩ := d
  rw [ofDecimal, Decimal.value]
  -- a power of ten multiplies the numerator or the denominator, as its sign says
  split
  · next hle =>
    obtain ⟨places, rfl⟩ := Int.eq_ofNat_of_zero_le hle
    have hstep := exists_step_nearestRatio (coefficient * 10 ^ places) Nat.one_pos
    simpa [Nat.pow_eq] using hstep
  · next hneg =>
    obtain ⟨places, rfl⟩ := Int.exists_eq_neg_ofNat (not_le.1 hneg).le
    have hstep := exists_step_nearestRatio coefficient (d := 10 ^ places) (by positivity)
    simpa [Nat.pow_eq, div_eq_mul_inv] using hstep

/-- A decimal is never read as NaN. -/
theorem isNaN_ofDecimal (d : Decimal) : (ofDecimal d).isNaN = false := by
  obtain ⟨m, -, heq⟩ := exists_step_ofDecimal d
  rw [heq, isNaN_ofStep]

/-- **Decimals are correctly rounded,** and there is only one number they can be rounded to. -/
theorem roundsTo_iff_eq_ofDecimal {d : Decimal} {x : Binary64} :
    RoundsTo d.value x ↔ x = ofDecimal d := by
  obtain ⟨m, hm, heq⟩ := exists_step_ofDecimal d
  rw [heq]
  constructor
  · exact hm.eq_of_roundsTo d.value_nonneg
  · rintro rfl
    exact hm.roundsTo d.value_nonneg

/-- A decimal is never read as a number with a sign. -/
theorem isNegative_ofDecimal (d : Decimal) : (ofDecimal d).isNegative = false :=
  (roundsTo_iff_eq_ofDecimal.2 rfl).unsigned

/-- Decimals of one value are rounded to one number, however they are written. -/
theorem ofDecimal_congr {d e : Decimal} (h : d.value = e.value) : ofDecimal d = ofDecimal e := by
  rw [← roundsTo_iff_eq_ofDecimal, ← h, roundsTo_iff_eq_ofDecimal]

/-- **Rounding is monotone.** -/
theorem magnitude_ofDecimal_mono {d e : Decimal} (h : d.value ≤ e.value) :
    (ofDecimal d).magnitude ≤ (ofDecimal e).magnitude := by
  obtain ⟨m, hm, hd⟩ := exists_step_ofDecimal d
  obtain ⟨n, hn, he⟩ := exists_step_ofDecimal e
  have hle : m ≤ n := hm.mono hn (mul_le_mul_of_nonneg_right h (by positivity))
  rw [hd, he, magnitude_ofStep, magnitude_ofStep]
  omega

/-- **Overflow** of decimals begins at `overflowThreshold`. -/
theorem ofDecimal_eq_infinity_iff {d : Decimal} :
    ofDecimal d = infinity ↔ overflowThreshold ≤ d.value := by
  obtain ⟨m, hm, heq⟩ := exists_step_ofDecimal d
  rw [heq, ofStep_eq_infinity_iff, hm.infinityBits_le_iff]

/-- **Underflow** of decimals reaches up to half of the smallest number. -/
theorem ofDecimal_eq_zero_iff {d : Decimal} : ofDecimal d = ⟨0⟩ ↔ d.value ≤ 1 / 2 ^ 1075 := by
  obtain ⟨m, hm, heq⟩ := exists_step_ofDecimal d
  rw [heq, ofStep_eq_zero_iff, hm.eq_zero_iff]

end Binary64

end SourceScan

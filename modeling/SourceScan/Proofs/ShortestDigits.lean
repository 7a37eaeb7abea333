import SourceScan.Number.FloatText
import SourceScan.Proofs.Rounding

/-!
# The shortest digits of a number

`shortest` searches grids of decimals, from a coarse one to the one that holds every number. The
decimal it finds `IsShortest` (**`isShortest_shortest`**): it reads back, no decimal on a coarser
grid does, and of those on its grid that do none is nearer.

Two points of each grid are enough by `readsBack_beside`: rounding is monotone, so if any point
reads back, the one next to the number on the same side does. The search may begin at
`coarsestExponent` by `exponent_le_coarsestExponent`: a higher power of ten is more than twice the
number.
-/

namespace SourceScan.Binary64

variable {x : Binary64}

/-! ## Numbers among the decimals -/

/-- **A number is rounded to itself.** -/
theorem ofDecimal_eq_of_value {d : Decimal} (hsign : x.isNegative = false) (hfinite : x.IsFinite)
    (h : d.value = x.size) : ofDecimal d = x := by
  obtain ⟨m, hm, heq⟩ := exists_step_ofDecimal d
  rw [h, size_mul_units] at hm
  rw [heq, hm.unique (.of_step x.magnitude)]
  exact ofStep_magnitude hsign (isFinite_iff.1 hfinite).le

/-- Numbers without a sign are told apart by their magnitudes. -/
theorem eq_of_magnitude_eq {y : Binary64} (hx : x.isNegative = false) (hy : y.isNegative = false)
    (hfinite : x.IsFinite) (h : y.magnitude = x.magnitude) : y = x := by
  have hle := (isFinite_iff.1 hfinite).le
  rw [← ofStep_magnitude hx hle, ← ofStep_magnitude hy (h ▸ hle), h]

/-- The finest grid holds the number. -/
theorem value_finest (x : Binary64) :
    (⟨x.gridFloor (-unitBits), -unitBits⟩ : Decimal).value = x.size := by
  have hneg : ¬ (0 : ℤ) ≤ -unitBits := by decide
  have hunits : x.units * 10 ^ unitBits / 2 ^ unitBits = x.units * 5 ^ unitBits := by
    rw [show (10 : Nat) = 5 * 2 from rfl, mul_pow, ← mul_assoc]
    exact Nat.mul_div_cancel _ (by positivity)
  have hten : (10 : ℚ) ^ unitBits = 5 ^ unitBits * 2 ^ unitBits := by
    rw [← mul_pow]
    norm_num
  rw [Decimal.value, gridFloor, if_neg hneg, neg_neg, Int.toNat_natCast, Nat.pow_eq, Nat.pow_eq,
    hunits, zpow_neg, zpow_natCast, hten]
  have hsize := x.size_mul_units
  rw [← units_eq] at hsize
  push_cast
  rw [← hsize]
  field_simp

/-- `readsBack` compares magnitudes. -/
theorem readsBack_iff {d : Decimal} :
    x.readsBack d = true ↔ (ofDecimal d).magnitude = x.magnitude := by
  rw [readsBack, beq_iff_eq]

/-! ## Points of a grid -/

/-- Comparing multiples of a power of ten with multiples of a number, in units. -/
theorem grid_le_iff (x : Binary64) (a b : Nat) (exponent : ℤ) :
    (a * 10 ^ exponent : ℚ) ≤ b * x.size ↔
      if 0 ≤ exponent then a * (2 ^ unitBits * 10 ^ exponent.toNat) ≤ b * x.units
      else a * 2 ^ unitBits ≤ b * (x.units * 10 ^ (-exponent).toNat) := by
  have hpos : (0 : ℚ) < 2 ^ unitBits := by positivity
  have hsize := x.size_mul_units
  rw [← units_eq] at hsize
  rw [← mul_le_mul_iff_left₀ hpos, mul_assoc (b : ℚ), hsize]
  generalize unitBits = bits at hpos ⊢
  split
  · next hle =>
    obtain ⟨places, rfl⟩ := Int.eq_ofNat_of_zero_le hle
    rw [zpow_natCast, Int.toNat_natCast, mul_assoc, mul_comm ((10 : ℚ) ^ places)]
    norm_cast
  · next hneg =>
    obtain ⟨places, rfl⟩ := Int.exists_eq_neg_ofNat (not_le.1 hneg).le
    have hten : (0 : ℚ) < 10 ^ places := by positivity
    rw [neg_neg, zpow_neg, zpow_natCast, Int.toNat_natCast, ← mul_le_mul_iff_left₀ hten,
      mul_right_comm, inv_mul_cancel_right₀ hten.ne', mul_assoc (b : ℚ)]
    norm_cast

/-- The points that are not above the number are those up to the floor. -/
theorem le_gridFloor_iff {n : Nat} {exponent : ℤ} :
    n ≤ x.gridFloor exponent ↔ (⟨n, exponent⟩ : Decimal).value ≤ x.size := by
  have hgrid := x.grid_le_iff n 1 exponent
  rw [Nat.cast_one, one_mul, one_mul, one_mul] at hgrid
  rw [Decimal.value, hgrid, gridFloor]
  generalize unitBits = bits
  split
  all_goals
    simp only [Nat.pow_eq]
    exact Nat.le_div_iff_mul_le (by positivity)

/-- `closerToFloor` compares with the middle between a point and the next one. -/
theorem closerToFloor_iff {n : Nat} {exponent : ℤ} : x.closerToFloor exponent n = true ↔
    2 * x.size < (⟨n, exponent⟩ : Decimal).value + (⟨n + 1, exponent⟩ : Decimal).value := by
  have hgrid := x.grid_le_iff (2 * n + 1) 2 exponent
  have hsum : (⟨n, exponent⟩ : Decimal).value + (⟨n + 1, exponent⟩ : Decimal).value =
      ((2 * n + 1 : Nat) : ℚ) * 10 ^ exponent := by
    rw [Decimal.value, Decimal.value]
    push_cast
    ring
  rw [Nat.cast_two] at hgrid
  rw [← not_le, hsum, hgrid, closerToFloor]
  split
  all_goals simp [Nat.pow_eq]

/-- Points of a grid are in order. -/
theorem value_grid_mono {m n : Nat} (exponent : ℤ) (h : m ≤ n) :
    (⟨m, exponent⟩ : Decimal).value ≤ (⟨n, exponent⟩ : Decimal).value :=
  mul_le_mul_of_nonneg_right (Nat.cast_le.2 h) (by positivity)

/-- The floor is not above the number. -/
theorem value_gridFloor_le (x : Binary64) (exponent : ℤ) :
    (⟨x.gridFloor exponent, exponent⟩ : Decimal).value ≤ x.size :=
  le_gridFloor_iff.1 le_rfl

/-- The point behind the floor is. -/
theorem lt_value_gridFloor_succ (x : Binary64) (exponent : ℤ) :
    x.size < (⟨x.gridFloor exponent + 1, exponent⟩ : Decimal).value :=
  not_le.1 fun h => Nat.not_succ_le_self _ (le_gridFloor_iff.2 h)

/-- Of the points up to the floor, the floor is nearest. -/
theorem abs_gridFloor_sub_le {n : Nat} {exponent : ℤ} (h : n ≤ x.gridFloor exponent) :
    |(⟨x.gridFloor exponent, exponent⟩ : Decimal).value - x.size| ≤
      |(⟨n, exponent⟩ : Decimal).value - x.size| := by
  have hfloor := x.value_gridFloor_le exponent
  have hmono := value_grid_mono exponent h
  rw [abs_of_nonpos (by linarith), abs_of_nonpos (by linarith)]
  linarith

/-- Of the points above the floor, the first is nearest. -/
theorem abs_gridFloor_succ_sub_le {n : Nat} {exponent : ℤ} (h : x.gridFloor exponent < n) :
    |(⟨x.gridFloor exponent + 1, exponent⟩ : Decimal).value - x.size| ≤
      |(⟨n, exponent⟩ : Decimal).value - x.size| := by
  have hnext := x.lt_value_gridFloor_succ exponent
  have hmono := value_grid_mono exponent (Nat.succ_le_of_lt h)
  rw [abs_of_nonneg (by linarith), abs_of_nonneg (by linarith)]
  linarith

/-- The test compares the two distances. -/
theorem closerToFloor_gridFloor_iff {exponent : ℤ} :
    x.closerToFloor exponent (x.gridFloor exponent) = true ↔
      |(⟨x.gridFloor exponent, exponent⟩ : Decimal).value - x.size| <
        |(⟨x.gridFloor exponent + 1, exponent⟩ : Decimal).value - x.size| := by
  have hfloor := x.value_gridFloor_le exponent
  have hnext := x.lt_value_gridFloor_succ exponent
  rw [closerToFloor_iff, abs_of_nonpos (by linarith), abs_of_nonneg (by linarith)]
  constructor <;> intro h <;> linarith

/-! ## What is found on a grid -/

/-- A decimal between two that read back reads back. -/
theorem readsBack_of_between {d e f : Decimal} (hd : x.readsBack d = true)
    (hf : x.readsBack f = true) (hde : d.value ≤ e.value) (hef : e.value ≤ f.value) :
    x.readsBack e = true := by
  rw [readsBack_iff] at hd hf ⊢
  have hlow := magnitude_ofDecimal_mono hde
  have hhigh := magnitude_ofDecimal_mono hef
  omega

section Finite

variable (hsign : x.isNegative = false) (hfinite : x.IsFinite)
include hsign hfinite

/-- The number itself, as a point of the finest grid, reads back. -/
theorem readsBack_finest : x.readsBack ⟨x.gridFloor (-unitBits), -unitBits⟩ = true := by
  rw [readsBack_iff, ofDecimal_eq_of_value hsign hfinite x.value_finest]

/-- **If a point of a grid reads back,** the one next to the number on the same side does. -/
theorem readsBack_beside {n : Nat} {exponent : ℤ} (h : x.readsBack ⟨n, exponent⟩ = true) :
    (n ≤ x.gridFloor exponent ∧ x.readsBack ⟨x.gridFloor exponent, exponent⟩ = true) ∨
      (x.gridFloor exponent < n ∧ x.readsBack ⟨x.gridFloor exponent + 1, exponent⟩ = true) := by
  have hself := readsBack_finest hsign hfinite
  rcases le_or_gt n (x.gridFloor exponent) with hn | hn
  · refine .inl ⟨hn, readsBack_of_between h hself (value_grid_mono exponent hn) ?_⟩
    rw [value_finest]
    exact x.value_gridFloor_le exponent
  · refine .inr ⟨hn, readsBack_of_between hself h ?_ (value_grid_mono exponent hn)⟩
    rw [value_finest]
    exact (x.lt_value_gridFloor_succ exponent).le

/-- **What a grid offers** is a point of it that reads back, and none that does is nearer. -/
theorem onGrid?_some {exponent : ℤ} {d : Decimal} (h : x.onGrid? exponent = some d) :
    d.exponent = exponent ∧ x.readsBack d = true ∧ ∀ n, x.readsBack ⟨n, exponent⟩ = true →
      |d.value - x.size| ≤ |(⟨n, exponent⟩ : Decimal).value - x.size| := by
  have hbeside (n : Nat) (hn : x.readsBack ⟨n, exponent⟩ = true) :=
    readsBack_beside hsign hfinite hn
  simp only [onGrid?] at h
  -- which of the two points read back: both, the one below, the one above, or neither
  split at h
  · next hbelow habove =>
    split at h
    · next hcloser =>
      cases h
      refine ⟨rfl, hbelow, fun n hn => ?_⟩
      rcases hbeside n hn with ⟨hle, -⟩ | ⟨hlt, -⟩
      · exact abs_gridFloor_sub_le hle
      · exact (closerToFloor_gridFloor_iff.1 hcloser).le.trans (abs_gridFloor_succ_sub_le hlt)
    · next hcloser =>
      cases h
      refine ⟨rfl, habove, fun n hn => ?_⟩
      rw [closerToFloor_gridFloor_iff, not_lt] at hcloser
      rcases hbeside n hn with ⟨hle, -⟩ | ⟨hlt, -⟩
      · exact hcloser.trans (abs_gridFloor_sub_le hle)
      · exact abs_gridFloor_succ_sub_le hlt
  · next hbelow habove =>
    cases h
    refine ⟨rfl, hbelow, fun n hn => ?_⟩
    rcases hbeside n hn with ⟨hle, -⟩ | ⟨-, hreads⟩
    · exact abs_gridFloor_sub_le hle
    · rw [habove] at hreads
      cases hreads
  · next hbelow habove =>
    cases h
    refine ⟨rfl, habove, fun n hn => ?_⟩
    rcases hbeside n hn with ⟨-, hreads⟩ | ⟨hlt, -⟩
    · rw [hbelow] at hreads
      cases hreads
    · exact abs_gridFloor_succ_sub_le hlt
  · cases h

/-- **A grid that offers nothing** has no point that reads back. -/
theorem onGrid?_none {exponent : ℤ} (h : x.onGrid? exponent = none) (n : Nat) :
    x.readsBack ⟨n, exponent⟩ = false := by
  by_contra hn
  rw [Bool.not_eq_false] at hn
  simp only [onGrid?] at h
  split at h
  · cases h
  · cases h
  · cases h
  · next hbelow habove =>
    rcases readsBack_beside hsign hfinite hn with ⟨-, hreads⟩ | ⟨-, hreads⟩
    · rw [hbelow] at hreads
      cases hreads
    · rw [habove] at hreads
      cases hreads

/-! ## The search -/

/-- **The shortest decimal that reads back:** none on a coarser grid does, and none that does on the
same grid is nearer. -/
structure IsShortest (x : Binary64) (d : Decimal) : Prop where
  readsBack : x.readsBack d = true
  coarsest : ∀ e, x.readsBack e = true → e.exponent ≤ d.exponent
  nearest : ∀ e, x.readsBack e = true → e.exponent = d.exponent →
    |d.value - x.size| ≤ |e.value - x.size|

/-- The search goes through all grids down to the finest, unless it finds something before. The
induction is on the grids left, and keeps that no decimal on a grid passed reads back. -/
theorem isShortest_searchGrids (steps : Nat) (exponent : ℤ)
    (hfinest : exponent - steps = -unitBits)
    (hcoarsest : ∀ e, x.readsBack e = true → e.exponent ≤ exponent) :
    x.IsShortest (x.searchGrids steps exponent) := by
  induction steps generalizing exponent with
  | zero =>
    obtain rfl : exponent = -unitBits := by simpa using hfinest
    refine ⟨readsBack_finest hsign hfinite, hcoarsest, fun e _ _ => ?_⟩
    rw [searchGrids, value_finest, sub_self, abs_zero]
    exact abs_nonneg _
  | succ steps ih =>
    rw [searchGrids]
    split
    · next d hd =>
      obtain ⟨hexponent, hreads, hnearest⟩ := onGrid?_some hsign hfinite hd
      refine ⟨hreads, fun e he => hexponent ▸ hcoarsest e he, ?_⟩
      rintro ⟨n, grid⟩ he hgrid
      obtain rfl : grid = exponent := hgrid.trans hexponent
      exact hnearest n he
    · next hnone =>
      have hnext : exponent - 1 - steps = -unitBits := by
        rw [← hfinest]
        push_cast
        ring
      -- a grid without a find has no point that reads back, so the next one is the coarsest left
      refine ih (exponent - 1) hnext ?_
      rintro ⟨n, grid⟩ he
      have hle : grid ≤ exponent := hcoarsest _ he
      have hne : grid ≠ exponent := by
        rintro rfl
        rw [onGrid?_none hsign hfinite hnone n] at he
        cases he
      show grid ≤ exponent - 1
      omega

end Finite

/-! ## Where the search begins -/

/-- Powers of two and of ten, from `2 ^ 93 ≤ 10 ^ 28` and `10 ^ 59 ≤ 2 ^ 196`. -/
theorem two_zpow_le_ten_zpow {j k : ℤ} (hup : 0 ≤ j → 28 * j ≤ 93 * k)
    (hdown : j < 0 → 59 * j ≤ 196 * k) : (2 : ℚ) ^ j ≤ 10 ^ k := by
  have hraise (a : ℚ) (i : ℤ) (n : Nat) : (a ^ i) ^ n = (a ^ n) ^ i := by
    rw [← zpow_natCast, ← zpow_natCast, zpow_comm]
  -- both sides are raised to a power at which the exponents of the known inequality appear
  rcases le_or_gt 0 j with hj | hj
  · rw [← pow_le_pow_iff_left₀ (by positivity) (by positivity) (show 93 ≠ 0 by decide)]
    calc ((2 : ℚ) ^ j) ^ 93 = (2 ^ 93) ^ j := hraise 2 j 93
      _ ≤ (10 ^ 28) ^ j := zpow_le_zpow_left₀ hj (by norm_num) (by norm_num)
      _ = 10 ^ (28 * j) := (zpow_mul 10 28 j).symm
      _ ≤ 10 ^ (93 * k) := zpow_le_zpow_right₀ (by norm_num) (hup hj)
      _ = (10 ^ 93) ^ k := zpow_mul 10 93 k
      _ = (10 ^ k) ^ 93 := (hraise 10 k 93).symm
  · rw [← pow_le_pow_iff_left₀ (by positivity) (by positivity) (show 196 ≠ 0 by decide)]
    calc ((2 : ℚ) ^ j) ^ 196 = (2 ^ 196) ^ j := hraise 2 j 196
      _ ≤ (10 ^ 59) ^ j := by
        obtain ⟨n, rfl⟩ := Int.exists_eq_neg_ofNat hj.le
        rw [zpow_neg, zpow_neg, zpow_natCast, zpow_natCast]
        exact inv_anti₀ (by positivity) (pow_le_pow_left₀ (by norm_num) (by norm_num) n)
      _ = 10 ^ (59 * j) := (zpow_mul 10 59 j).symm
      _ ≤ 10 ^ (196 * k) := zpow_le_zpow_right₀ (by norm_num) (hdown hj)
      _ = (10 ^ 196) ^ k := zpow_mul 10 196 k
      _ = (10 ^ k) ^ 196 := (hraise 10 k 196).symm

/-- A step of the scale is at most twice as far as the one before. -/
theorem unitsAt_succ_le {m : Nat} (hm : m ≠ 0) : unitsAt (m + 1) ≤ 2 * unitsAt m := by
  obtain ⟨k, s, rfl, hlow, hhigh⟩ := exists_binade m
  rw [unitsAt_binade hlow hhigh.le, add_assoc, unitsAt_binade (s := s + 1) (by omega) (by omega),
    ← mul_assoc]
  exact Nat.mul_le_mul_right _ (by omega)

/-- A finite number is below `2 ^ 1024`, in units. -/
theorem log2_units_lt (hfinite : x.IsFinite) : Nat.log2 x.units < unitBits + 1024 := by
  have htop : infinityBits = (unitBits + 971) * 2 ^ 52 + 2 ^ 53 := by decide
  have hlt : x.units < 2 ^ (unitBits + 1024) := by
    have hbits : unitBits + 971 + 53 = unitBits + 1024 := rfl
    have hbelow := strictMono_unitsAt (isFinite_iff.1 hfinite)
    rwa [← units_eq, htop, unitsAt_binade (by omega) (by omega), mul_comm, ← pow_add,
      hbits] at hbelow
  rcases Nat.eq_zero_or_pos x.units with hzero | hpos
  · rw [hzero]
    decide
  · exact (Nat.log2_lt hpos.ne').2 hlt

/-- **Powers of ten above the first grid are out of reach:** each is more than twice the number. -/
theorem two_mul_units_lt (hfinite : x.IsFinite) {exponent : ℤ}
    (h : x.coarsestExponent < exponent) :
    2 * (x.units : ℚ) < 10 ^ exponent * 2 ^ unitBits := by
  have hpos : (0 : ℚ) < 2 ^ unitBits := by positivity
  have hbits : (x.units : ℚ) < 2 ^ (Nat.log2 x.units + 1) := by
    exact_mod_cast Nat.lt_log2_self
  have htop := log2_units_lt hfinite
  have hpowers : (2 : ℚ) ^ (((Nat.log2 x.units + 1 + 1 : Nat) : ℤ) - unitBits) ≤ 10 ^ exponent := by
    -- `1233 / 4096` lies close enough to the bounds `28 / 93` and `59 / 196` over this range
    rw [coarsestExponent] at h
    apply two_zpow_le_ten_zpow
    all_goals
      rw [unitBits] at *
      omega
  rw [zpow_sub₀ two_ne_zero, zpow_natCast, zpow_natCast, div_le_iff₀ hpos, pow_succ'] at hpowers
  linarith

/-- **No decimal above the first grid reads back.** It would be rounded to the step of the number,
but it is farther than the next step. -/
theorem exponent_le_coarsestExponent (hfinite : x.IsFinite) (hpos : x.magnitude ≠ 0) {d : Decimal}
    (h : x.readsBack d = true) : d.exponent ≤ x.coarsestExponent := by
  by_contra hlt
  obtain ⟨m, hm, heq⟩ := exists_step_ofDecimal d
  rw [readsBack_iff, heq, magnitude_ofStep] at h
  have hbelow := isFinite_iff.1 hfinite
  have hsame : m = x.magnitude := by omega
  have hvalue : d.value ≠ 0 := by
    intro hzero
    rw [hzero, zero_mul, ← Nat.cast_zero, ← unitsAt_zero] at hm
    exact hpos (hsame ▸ hm.unique (.of_step 0))
  -- a decimal that is not zero is at least its power of ten
  have hcoefficient : (1 : ℚ) ≤ d.coefficient := by
    refine Nat.one_le_cast.2 (Nat.pos_of_ne_zero fun hzero => hvalue ?_)
    rw [Decimal.value, hzero, Nat.cast_zero, zero_mul]
  have hfar : 2 * (unitsAt m : ℚ) < d.value * 2 ^ unitBits := by
    rw [hsame, ← units_eq]
    refine (two_mul_units_lt hfinite (not_le.1 hlt)).trans_le ?_
    refine mul_le_mul_of_nonneg_right ?_ (by positivity)
    exact le_mul_of_one_le_left (by positivity) hcoefficient
  have hnext : (unitsAt (m + 1) : ℚ) ≤ 2 * unitsAt m := by
    exact_mod_cast unitsAt_succ_le (hsame ▸ hpos)
  have hpass : Passes (d.value * 2 ^ unitBits) m := by
    have hnonneg : (0 : ℚ) ≤ unitsAt m := Nat.cast_nonneg _
    left
    linarith
  exact lt_irrefl m ((hm m).2 hpass)

/-- The search begins above the finest grid. -/
theorem unitBits_le_coarsestExponent (x : Binary64) : 0 ≤ x.coarsestExponent + unitBits := by
  rw [coarsestExponent, unitBits]
  omega

/-- **What the search finds is the shortest decimal.** -/
theorem isShortest_shortest (hsign : x.isNegative = false) (hfinite : x.IsFinite)
    (hpos : x.magnitude ≠ 0) : x.IsShortest x.shortest := by
  refine isShortest_searchGrids hsign hfinite _ _ ?_ fun e he =>
    exponent_le_coarsestExponent hfinite hpos he
  have hsteps := x.unitBits_le_coarsestExponent
  omega

/-- Shortest digits are read as the number itself. -/
theorem ofDecimal_shortest (hsign : x.isNegative = false) (hfinite : x.IsFinite)
    (hpos : x.magnitude ≠ 0) : ofDecimal x.shortest = x :=
  eq_of_magnitude_eq hsign (isNegative_ofDecimal _) hfinite
    (readsBack_iff.1 (isShortest_shortest hsign hfinite hpos).readsBack)

end SourceScan.Binary64

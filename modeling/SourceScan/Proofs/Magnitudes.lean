import Mathlib.Algebra.Order.Field.Rat
import Mathlib.Algebra.Order.Group.Unbundled.Abs
import Mathlib.Algebra.Ring.Parity
import Mathlib.Order.Monotone.Basic
import Mathlib.Tactic.Linarith
import Mathlib.Tactic.Positivity
import Mathlib.Tactic.Ring
import SourceScan.Number.Binary64

/-!
# The scale of magnitudes

The bits of a number without its sign count the steps of a scale: `unitsAt m` is where step `m`
stands, in units of `2 ^ (-1074)`. The scale has no top here. It goes on past the largest number
with the same spacing rule, so overflow is not a case of its own: a fraction overflows when the
step nearest to it is that of the infinity or a later one.

Rounding on the scale is described by the middles between the steps. `Passes u k` says that `u` is
rounded to something above step `k`, and `RoundsToStep u m` that the steps it passes are those below
`m`. A fraction passes the middles in order, so one that is known to pass the last of them and not
the next is known to be rounded (**`roundsToStep_of_middles`**), and two roundings of one fraction
agree at once.
-/

namespace SourceScan.Binary64

/-! ## The scale -/

/-- Where step `m` of the scale stands. -/
def unitsAt (m : Nat) : Nat :=
  if m / 2 ^ 52 = 0 then m else (m % 2 ^ 52 + 2 ^ 52) * 2 ^ (m / 2 ^ 52 - 1)

/-- The units of a number are those of its step. -/
theorem units_eq (x : Binary64) : x.units = unitsAt x.magnitude := by
  simp only [units, significand, shift, unitsAt, Nat.pow_eq]
  split
  · next h => rw [h, Nat.zero_sub, pow_zero, mul_one]
  · rfl

/-- A number of `k` binades above the lowest two, with up to 53 bits of significand; the last step
of a binade is the first of the next one. -/
theorem unitsAt_binade {k s : Nat} (hlow : k = 0 ∨ 2 ^ 52 ≤ s) (hhigh : s ≤ 2 ^ 53) :
    unitsAt (k * 2 ^ 52 + s) = s * 2 ^ k := by
  unfold unitsAt
  rcases lt_or_ge s (2 ^ 52) with hs | hs
  · obtain rfl : k = 0 := by omega
    have hfield : (0 * 2 ^ 52 + s) / 2 ^ 52 = 0 := by omega
    rw [if_pos hfield, pow_zero]
    omega
  · have hfield : (k * 2 ^ 52 + s) / 2 ^ 52 ≠ 0 := by omega
    rw [if_neg hfield]
    -- within the binade the significand is `s`, and at its end the next binade begins
    rcases hhigh.lt_or_eq with hs' | rfl
    · have hshift : (k * 2 ^ 52 + s) / 2 ^ 52 - 1 = k := by omega
      have hdigits : (k * 2 ^ 52 + s) % 2 ^ 52 + 2 ^ 52 = s := by omega
      rw [hshift, hdigits]
    · have hshift : (k * 2 ^ 52 + 2 ^ 53) / 2 ^ 52 - 1 = k + 1 := by omega
      have hdigits : (k * 2 ^ 52 + 2 ^ 53) % 2 ^ 52 + 2 ^ 52 = 2 ^ 52 := by omega
      rw [hshift, hdigits, pow_succ 2 k, pow_succ 2 52]
      ring

/-- Every step has a binade and a significand in it. -/
theorem exists_binade (m : Nat) :
    ∃ k s, m = k * 2 ^ 52 + s ∧ (k = 0 ∨ 2 ^ 52 ≤ s) ∧ s < 2 ^ 53 := by
  rcases lt_or_ge m (2 ^ 52) with hm | hm
  · exact ⟨0, m, by omega, .inl rfl, by omega⟩
  · exact ⟨m / 2 ^ 52 - 1, m % 2 ^ 52 + 2 ^ 52, by omega, .inr (by omega), by omega⟩

/-- **The scale goes up.** A step and the next one are in one binade, if its end is counted with
it. -/
theorem strictMono_unitsAt : StrictMono unitsAt := by
  refine strictMono_nat_of_lt_succ fun m => ?_
  obtain ⟨k, s, rfl, hlow, hhigh⟩ := exists_binade m
  rw [unitsAt_binade hlow hhigh.le, add_assoc, unitsAt_binade (s := s + 1) (by omega) (by omega)]
  exact Nat.mul_lt_mul_of_pos_right (Nat.lt_succ_self s) (by positivity)

@[simp] theorem unitsAt_zero : unitsAt 0 = 0 := rfl

@[simp] theorem unitsAt_one : unitsAt 1 = 1 := rfl

theorem unitsAt_lt_cast {j k : Nat} : (unitsAt j : ℚ) < unitsAt k ↔ j < k := by
  rw [Nat.cast_lt, strictMono_unitsAt.lt_iff_lt]

theorem unitsAt_inj_cast {j k : Nat} : (unitsAt j : ℚ) = unitsAt k ↔ j = k := by
  rw [Nat.cast_inj, strictMono_unitsAt.injective.eq_iff]

/-! ## Middles -/

/-- **A fraction is rounded to something above step `k`:** it lies behind the middle between this
step and the next, or on it when `k` is odd. -/
def Passes (u : ℚ) (k : Nat) : Prop :=
  (unitsAt k + unitsAt (k + 1) : ℚ) < 2 * u ∨
    ((unitsAt k + unitsAt (k + 1) : ℚ) = 2 * u ∧ Odd k)

/-- **A fraction is rounded to step `m`.** -/
def RoundsToStep (u : ℚ) (m : Nat) : Prop := ∀ k, k < m ↔ Passes u k

/-- Whoever passes a middle is not below it. -/
theorem Passes.le {u : ℚ} {k : Nat} (h : Passes u k) :
    (unitsAt k + unitsAt (k + 1) : ℚ) ≤ 2 * u := by
  rcases h with h | ⟨h, -⟩
  · exact h.le
  · exact h.le

theorem le_of_not_passes {u : ℚ} {k : Nat} (h : ¬ Passes u k) :
    2 * u ≤ (unitsAt k + unitsAt (k + 1) : ℚ) :=
  not_lt.1 fun hlt => h (.inl hlt)

/-- Middles are passed in order. -/
theorem Passes.of_lt {u : ℚ} {j k : Nat} (h : Passes u k) (hjk : j < k) : Passes u j := by
  refine .inl (lt_of_lt_of_le ?_ h.le)
  have hfirst : (unitsAt j : ℚ) < unitsAt k := unitsAt_lt_cast.2 hjk
  have hsecond : (unitsAt (j + 1) : ℚ) < unitsAt (k + 1) := unitsAt_lt_cast.2 (by omega)
  linarith

/-- A greater fraction passes at least as many. -/
theorem Passes.mono {u v : ℚ} {k : Nat} (h : Passes u k) (huv : u ≤ v) : Passes v k := by
  rcases huv.lt_or_eq with hlt | rfl
  · have hle := h.le
    left
    linarith
  · exact h

/-- **Two middles decide.** A fraction that passes the middle before step `m` and not the one behind
it is rounded to `m`. -/
theorem roundsToStep_of_middles {u : ℚ} {m : Nat} (hbefore : ∀ k, m = k + 1 → Passes u k)
    (hbehind : ¬ Passes u m) : RoundsToStep u m := by
  intro k
  constructor
  · intro hk
    -- the last middle before `m` is passed, and so are all before that
    obtain ⟨j, rfl⟩ : ∃ j, m = j + 1 := ⟨m - 1, by omega⟩
    rcases (Nat.lt_succ_iff.1 hk).lt_or_eq with hlt | rfl
    · exact (hbefore j rfl).of_lt hlt
    · exact hbefore k rfl
  · intro hk
    by_contra hle
    rcases (not_lt.1 hle).lt_or_eq with hlt | rfl
    · exact hbehind (hk.of_lt hlt)
    · exact hbehind hk

/-- A fraction between two steps is rounded to the first of them if it stays below the middle. -/
theorem roundsToStep_of_stays {u : ℚ} {m : Nat} (hle : unitsAt m ≤ u) (h : ¬ Passes u m) :
    RoundsToStep u m := by
  refine roundsToStep_of_middles ?_ h
  rintro k rfl
  have hbefore : (unitsAt k : ℚ) < unitsAt (k + 1) := unitsAt_lt_cast.2 k.lt_succ_self
  left
  linarith

/-- A fraction between two steps is rounded to the second of them if it passes the middle. -/
theorem roundsToStep_of_passes {u : ℚ} {m : Nat} (hlt : u < unitsAt (m + 1)) (h : Passes u m) :
    RoundsToStep u (m + 1) := by
  apply roundsToStep_of_middles
  · intro k hk
    obtain rfl : m = k := Nat.succ.inj hk
    exact h
  · intro hpass
    have hbehind : (unitsAt (m + 1) : ℚ) < unitsAt (m + 1 + 1) := unitsAt_lt_cast.2 (by omega)
    linarith [hpass.le]

namespace RoundsToStep

variable {u : ℚ} {m n k : Nat}

/-- **A fraction is rounded to one step.** -/
theorem unique (h : RoundsToStep u m) (h' : RoundsToStep u n) : m = n := by
  by_contra hne
  rcases Nat.lt_or_gt_of_ne hne with hlt | hlt
  · exact lt_irrefl m ((h m).2 ((h' m).1 hlt))
  · exact lt_irrefl n ((h' n).2 ((h n).1 hlt))

/-- Rounding keeps order. -/
theorem mono {v : ℚ} (h : RoundsToStep u m) (h' : RoundsToStep v n) (huv : u ≤ v) : m ≤ n := by
  by_contra hlt
  have hpass : Passes u n := (h n).1 (not_le.1 hlt)
  exact lt_irrefl n ((h' n).2 (hpass.mono huv))

/-- A step of the scale is rounded to itself. -/
theorem of_step (m : Nat) : RoundsToStep (unitsAt m) m := by
  refine roundsToStep_of_stays le_rfl fun hpass => ?_
  have hbehind : (unitsAt m : ℚ) < unitsAt (m + 1) := unitsAt_lt_cast.2 m.lt_succ_self
  linarith [hpass.le]

/-- The middle between the step and one before it. It is passed, and touched only if the step before
is the last one and the step is even. -/
theorem middle_before (h : RoundsToStep u m) (hk : k < m) :
    (unitsAt k + unitsAt m : ℚ) < 2 * u ∨
      ((unitsAt k + unitsAt m : ℚ) = 2 * u ∧ m = k + 1 ∧ Even m) := by
  obtain ⟨j, rfl⟩ : ∃ j, m = j + 1 := ⟨m - 1, by omega⟩
  rcases (Nat.lt_succ_iff.1 hk).lt_or_eq with hlt | rfl
  · have hlast := ((h j).1 j.lt_succ_self).le
    have hkj : (unitsAt k : ℚ) < unitsAt j := unitsAt_lt_cast.2 hlt
    left
    linarith
  · rcases (h k).1 hk with hlt | ⟨heq, hodd⟩
    · exact .inl hlt
    · exact .inr ⟨heq, rfl, hodd.add_one⟩

/-- The middle between the step and one behind it. -/
theorem middle_behind (h : RoundsToStep u m) (hk : m < k) :
    2 * u < (unitsAt m + unitsAt k : ℚ) ∨
      (2 * u = (unitsAt m + unitsAt k : ℚ) ∧ k = m + 1 ∧ Even m) := by
  have hstays : ¬ Passes u m := fun hpass => lt_irrefl m ((h m).2 hpass)
  have hle := le_of_not_passes hstays
  rcases (Nat.succ_le_of_lt hk).lt_or_eq with hlt | rfl
  · have hnext : (unitsAt (m + 1) : ℚ) < unitsAt k := unitsAt_lt_cast.2 hlt
    left
    linarith
  · rcases hle.lt_or_eq with hlt | heq
    · exact .inl hlt
    · refine .inr ⟨heq, rfl, Nat.not_odd_iff_even.1 fun hodd => ?_⟩
      exact hstays (.inr ⟨heq.symm, hodd⟩)

/-- **The step is nearest:** no step of the scale is closer. -/
theorem abs_sub_le (h : RoundsToStep u m) (k : Nat) :
    |(unitsAt m : ℚ) - u| ≤ |(unitsAt k : ℚ) - u| := by
  -- a step on either side is at least as far away, since the middle is not on its side
  rcases lt_trichotomy k m with hk | rfl | hk
  · have hle : (unitsAt k + unitsAt m : ℚ) ≤ 2 * u := by
      rcases h.middle_before hk with hlt | ⟨heq, -⟩
      · exact hlt.le
      · exact heq.le
    have hkm : (unitsAt k : ℚ) < unitsAt m := unitsAt_lt_cast.2 hk
    have hsign : (unitsAt k : ℚ) - u ≤ 0 := by linarith
    rw [abs_of_nonpos hsign, abs_le]
    constructor <;> linarith
  · exact le_rfl
  · have hle : 2 * u ≤ (unitsAt m + unitsAt k : ℚ) := by
      rcases h.middle_behind hk with hlt | ⟨heq, -⟩
      · exact hlt.le
      · exact heq.le
    have hmk : (unitsAt m : ℚ) < unitsAt k := unitsAt_lt_cast.2 hk
    have hsign : 0 ≤ (unitsAt k : ℚ) - u := by linarith
    rw [abs_of_nonneg hsign, abs_le]
    constructor <;> linarith

/-- If another step is equally near, the fraction is the middle of the two, they are neighbours and
the step that is rounded to is even. -/
theorem tie (h : RoundsToStep u m) (hne : k ≠ m)
    (heq : |(unitsAt k : ℚ) - u| = |(unitsAt m : ℚ) - u|) :
    Even m ∧ (m = k + 1 ∨ k = m + 1) := by
  -- two different steps are equally near only from either side
  have hsum : (unitsAt k + unitsAt m : ℚ) = 2 * u := by
    rcases abs_eq_abs.1 heq with hsame | hopposite
    · exact absurd (unitsAt_inj_cast.1 (sub_left_inj.1 hsame)) hne
    · linarith
  rcases Nat.lt_or_gt_of_ne hne with hk | hk
  · rcases h.middle_before hk with hlt | ⟨-, hnext, heven⟩
    · exact absurd hsum hlt.ne
    · exact ⟨heven, .inl hnext⟩
  · rcases h.middle_behind hk with hlt | ⟨-, hnext, heven⟩
    · rw [add_comm] at hsum
      exact absurd hsum hlt.ne'
    · exact ⟨heven, .inr hnext⟩

/-- Of the even steps only the one that is rounded to is nearest. -/
theorem eq_of_even (h : RoundsToStep u m) (hk : Even k)
    (heq : |(unitsAt k : ℚ) - u| = |(unitsAt m : ℚ) - u|) : k = m := by
  by_contra hne
  -- of two neighbours only one is even
  obtain ⟨hm, rfl | rfl⟩ := h.tie hne heq
  · exact Nat.not_odd_iff_even.2 hm hk.add_one
  · exact Nat.not_odd_iff_even.2 hk hm.add_one

end RoundsToStep

end SourceScan.Binary64

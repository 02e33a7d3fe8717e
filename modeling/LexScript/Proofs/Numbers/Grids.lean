import Mathlib.Algebra.Order.Field.Power
import Mathlib.Data.Nat.Cast.Order.Field
import LexScript.Proofs.Numbers.Values

/-!
# Decimals on a grid

The decimals of one exponent are the points of a grid, whose steps are a power of ten. If any point
of a grid reads as a rank, then one of the two neighbours of its value does, and the one that is
chosen is nearest to the value among all points of the grid that read as the rank. A decimal is a
point of every grid that is not coarser than its own, and its digits say between which powers of ten
it lies.

## Main definitions

* `Decimal.length` : the number of digits.
* `Decimal.Reaches` : some point of a grid reads as a rank.
* `Decimal.IsNearestOn` : the points of a grid that may be chosen for a rank.

## Main statements

* `Decimal.isNearestOn_of_onGrid?` : the chosen point is one of them.
* `Decimal.power_reads` : a power of ten between two decimals that read alike.
-/

namespace LexScript

-- The powers of natural numbers are those of the core library.
attribute [local instance (high)] instPowNat

namespace Decimal

open Number

/-- The number of digits. -/
def length (d : Decimal) : Nat := (digitsOf d.digits).length

/-! ### Lengths -/

theorem length_pos (d : Decimal) : 0 < d.length := List.length_pos_iff.2 (digitsOf_ne_nil _)

theorem length_le_iff {d : Decimal} {n : Nat} (hn : 0 < n) : d.length ≤ n ↔ d.digits < 10 ^ n :=
  Nat.length_toDigits_le_iff (by decide) hn

theorem ten_zpow_pos (n : Int) : (0 : ℚ) < 10 ^ n := zpow_pos (by norm_num) n

theorem ten_zpow_le {m n : Int} (h : m ≤ n) : (10 : ℚ) ^ m ≤ 10 ^ n :=
  zpow_le_zpow_right₀ (by norm_num) h

theorem value_lt (d : Decimal) : d.value < 10 ^ (d.exponent + d.length) := by
  have hdigits : d.digits < 10 ^ d.length := (length_le_iff d.length_pos).1 (Nat.le_refl _)
  have hcast : (d.digits : ℚ) < 10 ^ d.length := by exact_mod_cast hdigits
  rw [value, add_comm, zpow_add₀ (by norm_num), zpow_natCast]
  exact mul_lt_mul_of_pos_right hcast (ten_zpow_pos _)

theorem le_value {d : Decimal} (hd : d.digits ≠ 0) :
    10 ^ (d.exponent + d.length - 1) ≤ d.value := by
  obtain ⟨n, hn⟩ : ∃ n, d.length = n + 1 := ⟨d.length - 1, by have := d.length_pos; omega⟩
  have hdigits : 10 ^ n ≤ d.digits := by
    rcases Nat.eq_zero_or_pos n with rfl | hpos
    · exact Nat.pos_of_ne_zero hd
    · refine Nat.le_of_not_lt fun hlt ↦ ?_
      have := (length_le_iff hpos).2 hlt
      omega
  have hcast : (10 : ℚ) ^ n ≤ d.digits := by exact_mod_cast hdigits
  rw [value, hn, show d.exponent + ((n + 1 : Nat) : Int) - 1 = n + d.exponent by push_cast; ring,
    zpow_add₀ (by norm_num), zpow_natCast]
  exact mul_le_mul_of_nonneg_right hcast (ten_zpow_pos _).le

theorem value_one (n : Int) : (⟨1, n⟩ : Decimal).value = 10 ^ n := by simp [value]

/-! ### The neighbours on a grid -/

/-- The common unit in which the whole numbers of a grid and of least units are compared. -/
def scale (grid : Int) : ℚ := ((unitsPerOne * 10 ^ (-grid).toNat : Nat) : ℚ)⁻¹

theorem scale_pos (grid : Int) : 0 < scale grid :=
  inv_pos.2 (Nat.cast_pos.2 (Nat.mul_pos unitsPerOne_pos (Nat.pow_pos (by decide))))

theorem valueOfRank_eq_scale (rank : Nat) (grid : Int) :
    valueOfRank rank = ((magnitudeOfRank rank * 10 ^ (-grid).toNat : Nat) : ℚ) * scale grid := by
  rw [valueOfRank, scale, ← div_eq_mul_inv, Nat.cast_mul, Nat.cast_mul, mul_div_mul_right]
  exact_mod_cast (Nat.pow_pos (by decide)).ne'

theorem value_eq_scale (steps : Nat) (grid : Int) :
    (⟨steps, grid⟩ : Decimal).value =
      ((steps * (unitsPerOne * 10 ^ grid.toNat) : Nat) : ℚ) * scale grid := by
  have hone := cast_unitsPerOne_pos
  rw [value_eq_div, numerator, denominator, scale]
  push_cast
  field_simp

section Grid

variable (rank : Nat) (grid : Int)

/-- The point of a grid next to the value of a rank that is not above it. -/
def below : Decimal := ⟨stepsBelow (magnitudeOfRank rank) grid, grid⟩

/-- The point of a grid next to the value of a rank that is above it. -/
def above : Decimal := ⟨stepsBelow (magnitudeOfRank rank) grid + 1, grid⟩

theorem value_below_le : (below rank grid).value ≤ valueOfRank rank := by
  rw [below, value_eq_scale, valueOfRank_eq_scale rank grid]
  exact mul_le_mul_of_nonneg_right (Nat.cast_le.2 (Nat.div_mul_le_self _ _)) (scale_pos grid).le

theorem lt_value_above : valueOfRank rank < (above rank grid).value := by
  have hpos : 0 < unitsPerOne * 10 ^ grid.toNat :=
    Nat.mul_pos unitsPerOne_pos (Nat.pow_pos (by decide))
  rw [above, value_eq_scale, valueOfRank_eq_scale rank grid]
  exact mul_lt_mul_of_pos_right
    (Nat.cast_lt.2 (Nat.lt_mul_of_div_lt (Nat.lt_succ_self _) hpos)) (scale_pos grid)

/-- The middle of the neighbours in the unit of the comparison. -/
theorem value_below_add_above :
    (below rank grid).value + (above rank grid).value =
      (((2 * stepsBelow (magnitudeOfRank rank) grid + 1) * unitsPerOne * 10 ^ grid.toNat : Nat) : ℚ)
        * scale grid := by
  rw [below, above, value_eq_scale, value_eq_scale]
  push_cast
  ring

theorem two_mul_valueOfRank :
    2 * valueOfRank rank =
      ((2 * magnitudeOfRank rank * 10 ^ (-grid).toNat : Nat) : ℚ) * scale grid := by
  rw [valueOfRank_eq_scale rank grid]
  push_cast
  ring

theorem compareMiddle_ne_gt_iff :
    compareMiddle (magnitudeOfRank rank) grid (stepsBelow (magnitudeOfRank rank) grid) ≠ .gt ↔
      2 * valueOfRank rank ≤ (below rank grid).value + (above rank grid).value := by
  rw [value_below_add_above, two_mul_valueOfRank rank grid, mul_le_mul_iff_left₀ (scale_pos grid),
    Nat.cast_le, compareMiddle, Nat.compare_ne_gt]

theorem compareMiddle_ne_lt_iff :
    compareMiddle (magnitudeOfRank rank) grid (stepsBelow (magnitudeOfRank rank) grid) ≠ .lt ↔
      (below rank grid).value + (above rank grid).value ≤ 2 * valueOfRank rank := by
  rw [value_below_add_above, two_mul_valueOfRank rank grid, mul_le_mul_iff_left₀ (scale_pos grid),
    Nat.cast_le, compareMiddle, Nat.compare_ne_lt]

end Grid

/-! ### The nearest point of a grid -/

/-- Some point of the grid reads as the rank. -/
def Reaches (rank : Nat) (grid : Int) : Prop := ∃ steps : Nat, (⟨steps, grid⟩ : Decimal).rank = rank

/-- A point of a grid that reads as the rank, and no such point is nearer to the rank. -/
structure IsNearestOn (d : Decimal) (rank : Nat) (grid : Int) : Prop where
  exponent_eq : d.exponent = grid
  reads : d.rank = rank
  distance_le : ∀ steps : Nat, (⟨steps, grid⟩ : Decimal).rank = rank →
    |d.value - valueOfRank rank| ≤ |(⟨steps, grid⟩ : Decimal).value - valueOfRank rank|

theorem value_le_value {m n : Nat} (h : m ≤ n) (grid : Int) :
    (⟨m, grid⟩ : Decimal).value ≤ (⟨n, grid⟩ : Decimal).value :=
  mul_le_mul_of_nonneg_right (Nat.cast_le.2 h) (ten_zpow_pos grid).le

theorem neighbour?_eq_none {tie : Tie} {middle : Ordering} {lower upper : Decimal}
    {lowerReads upperReads : Bool}
    (h : neighbour? tie middle lower upper lowerReads upperReads = none) :
    lowerReads = false ∧ upperReads = false := by
  unfold neighbour? at h
  split at h
  · exact ⟨rfl, rfl⟩
  · cases h
  · cases h
  · repeat' split at h
    all_goals cases h

section Finite

variable {rank : Nat} {grid : Int} (hrank : rank < infiniteRank)
include hrank

/-- If a point of a grid reads as a rank, then so does the neighbour on its side. -/
theorem neighbour_reads {steps : Nat} (h : (⟨steps, grid⟩ : Decimal).rank = rank) :
    (below rank grid).rank = rank ∧ (⟨steps, grid⟩ : Decimal).value ≤ (below rank grid).value ∨
    (above rank grid).rank = rank ∧ (above rank grid).value ≤ (⟨steps, grid⟩ : Decimal).value := by
  have hexact := rank_exact hrank
  rcases Nat.lt_or_ge (stepsBelow (magnitudeOfRank rank) grid) steps with hlt | hle
  · have hvalue : (above rank grid).value ≤ (⟨steps, grid⟩ : Decimal).value :=
      value_le_value hlt grid
    have hlow := (value_exact rank).trans_le (lt_value_above rank grid).le
    exact .inr ⟨rank_eq_of_between hexact h hlow hvalue, hvalue⟩
  · have hvalue : (⟨steps, grid⟩ : Decimal).value ≤ (below rank grid).value :=
      value_le_value hle grid
    have hhigh := (value_below_le rank grid).trans_eq (value_exact rank).symm
    exact .inl ⟨rank_eq_of_between h hexact hvalue hhigh, hvalue⟩

theorem not_reaches_of_onGrid? {tie : Tie} (h : onGrid? tie rank grid = none) :
    ¬Reaches rank grid := by
  rintro ⟨steps, hsteps⟩
  obtain ⟨hbelow, habove⟩ := neighbour?_eq_none h
  rcases neighbour_reads hrank hsteps with ⟨hreads, -⟩ | ⟨hreads, -⟩
  · exact of_decide_eq_false hbelow hreads
  · exact of_decide_eq_false habove hreads

theorem isNearestOn_of_onGrid? {tie : Tie} {d : Decimal} (h : onGrid? tie rank grid = some d) :
    d.IsNearestOn rank grid := by
  have hlow := value_below_le rank grid
  have hhigh := (lt_value_above rank grid).le
  have hbelow : |(below rank grid).value - valueOfRank rank| =
      valueOfRank rank - (below rank grid).value := by
    rw [abs_sub_comm, abs_of_nonneg (sub_nonneg.2 hlow)]
  have habove : |(above rank grid).value - valueOfRank rank| =
      (above rank grid).value - valueOfRank rank := abs_of_nonneg (sub_nonneg.2 hhigh)
  have hreads := rank_of_onGrid? h
  rcases neighbour?_cases h with ⟨-, heq, hmiddle⟩ | ⟨-, heq, hmiddle⟩
  · -- The neighbour below: one above that reads as well is not nearer.
    change d = below rank grid at heq
    subst heq
    refine ⟨rfl, hreads, fun steps hsteps ↦ ?_⟩
    rw [hbelow]
    rcases neighbour_reads hrank hsteps with ⟨-, hle⟩ | ⟨hupper, hle⟩
    · exact le_abs.2 (.inr (by linarith))
    · have hmiddle := (compareMiddle_ne_gt_iff rank grid).1 (hmiddle (decide_eq_true hupper))
      exact le_abs.2 (.inl (by linarith))
  · -- The neighbour above: one below that reads as well is not nearer.
    change d = above rank grid at heq
    subst heq
    refine ⟨rfl, hreads, fun steps hsteps ↦ ?_⟩
    rw [habove]
    rcases neighbour_reads hrank hsteps with ⟨hlower, hle⟩ | ⟨-, hle⟩
    · have hmiddle := (compareMiddle_ne_lt_iff rank grid).1 (hmiddle (decide_eq_true hlower))
      exact le_abs.2 (.inr (by linarith))
    · exact le_abs.2 (.inl (by linarith))

end Finite

/-! ### Coarser and finer grids -/

/-- Trailing zeros may stand among the digits or in the exponent. -/
theorem value_mul_pow (digits k : Nat) (exponent : Int) :
    (⟨digits * 10 ^ k, exponent⟩ : Decimal).value = (⟨digits, exponent + k⟩ : Decimal).value := by
  rw [value, value, Int.add_comm, zpow_add₀ (by norm_num), zpow_natCast, ← mul_assoc]
  simp only [Nat.cast_mul, Nat.cast_pow, Nat.cast_ofNat]

/-- A decimal is a point of every grid that is not coarser than its own. -/
theorem exists_steps (d : Decimal) {grid : Int} (h : grid ≤ d.exponent) :
    ∃ steps : Nat, (⟨steps, grid⟩ : Decimal).value = d.value := by
  refine ⟨d.digits * 10 ^ (d.exponent - grid).toNat, (value_mul_pow _ _ _).trans ?_⟩
  rw [show grid + ((d.exponent - grid).toNat : Int) = d.exponent by omega]

theorem reaches_of_reads {d : Decimal} {rank : Nat} (hd : d.rank = rank) {grid : Int}
    (h : grid ≤ d.exponent) : Reaches rank grid := by
  obtain ⟨steps, hsteps⟩ := d.exists_steps h
  exact ⟨steps, (rank_eq_of_value_eq hsteps).trans hd⟩

theorem digits_ne_zero {d : Decimal} {rank : Nat} (hd : d.rank = rank) (hrank : rank ≠ 0) :
    d.digits ≠ 0 := by
  intro h
  have hvalue : d.value = valueOfRank 0 := by simp [value, h]
  exact hrank (hd.symm.trans (rank_eq_of_value_eq_valueOfRank (by decide) hvalue))

/-- A power of ten between two decimals that read alike reads as they do. -/
theorem power_reads {d e : Decimal} {rank : Nat} (hd : d.rank = rank) (he : e.rank = rank)
    (hrank : rank ≠ 0) {n : Int} (hlow : e.exponent + e.length ≤ n)
    (hhigh : n ≤ d.exponent + d.length - 1) : (⟨1, n⟩ : Decimal).rank = rank := by
  apply rank_eq_of_between he hd
  · rw [value_one]
    exact e.value_lt.le.trans (ten_zpow_le hlow)
  · rw [value_one]
    exact (ten_zpow_le hhigh).trans (le_value (digits_ne_zero hd hrank))

end Decimal

end LexScript

import Mathlib.Algebra.Order.Field.Rat
import Mathlib.Algebra.Order.Ring.Abs
import Mathlib.Data.Rat.Cast.Order
import Mathlib.Tactic.FieldSimp
import Mathlib.Tactic.Linarith
import Mathlib.Tactic.NormNum
import LexScript.Proofs.Numbers.Rounding

/-!
# Exact values

Decimals and ranks have rational values. A decimal reads as the rank whose value is nearest to its
own, so the decimals that read as one rank lie between two middles: reading is monotone, a decimal
between two others that read alike reads as they do, and a decimal is at most half a unit away from
the rank it reads as.

## Main definitions

* `Decimal.value`, `Number.valueOfRank` : exact values.
* `Number.unitOfRank` : the distance from a rank to the next one.
* `Number.IsNearest` : rounding to the nearest, ties going to even ranks.

## Main statements

* `Decimal.rank_mono` : reading is monotone.
* `Decimal.isNearest_rank` : reading is rounding to the nearest.
-/

namespace LexScript

-- The powers of natural numbers are those of the core library.
attribute [local instance (high)] instPowNat

/-- The exact value of a decimal. -/
def Decimal.value (d : Decimal) : ℚ := d.digits * 10 ^ d.exponent

namespace Number

/-- The exact value of a rank. -/
def valueOfRank (rank : Nat) : ℚ := magnitudeOfRank rank / unitsPerOne

/-- The distance from the value of a rank to the value of the next one. -/
def unitOfRank (rank : Nat) : ℚ := ((2 ^ place rank : Nat) : ℚ) / unitsPerOne

/-- The rank nearest to a value: any other one is farther away, or as far with this one even. -/
def IsNearest (value : ℚ) (rank : Nat) : Prop :=
  ∀ other, other ≠ rank →
    |value - valueOfRank rank| < |value - valueOfRank other| ∨
    |value - valueOfRank rank| = |value - valueOfRank other| ∧ rank % 2 = 0

theorem cast_unitsPerOne_pos : (0 : ℚ) < unitsPerOne := Nat.cast_pos.2 unitsPerOne_pos

theorem unitOfRank_pos (rank : Nat) : 0 < unitOfRank rank :=
  div_pos (Nat.cast_pos.2 (Nat.two_pow_pos _)) cast_unitsPerOne_pos

theorem valueOfRank_succ (rank : Nat) :
    valueOfRank (rank + 1) = valueOfRank rank + unitOfRank rank := by
  rw [valueOfRank, magnitudeOfRank_succ, Nat.cast_add, add_div, ← valueOfRank, ← unitOfRank]

theorem strictMono_valueOfRank : StrictMono valueOfRank :=
  strictMono_nat_of_lt_succ fun rank ↦ by
    rw [valueOfRank_succ]
    exact lt_add_of_pos_right _ (unitOfRank_pos rank)

@[simp] theorem valueOfRank_zero : valueOfRank 0 = 0 := by
  have hzero : magnitudeOfRank 0 = 0 := rfl
  rw [valueOfRank, hzero, Nat.cast_zero, zero_div]

theorem valueOfRank_nonneg (rank : Nat) : 0 ≤ valueOfRank rank :=
  valueOfRank_zero ▸ strictMono_valueOfRank.monotone (Nat.zero_le rank)

theorem unitOfRank_mono {s t : Nat} (h : s ≤ t) : unitOfRank s ≤ unitOfRank t := by
  have hplace : place s ≤ place t := Nat.sub_le_sub_right (Nat.div_le_div_right h) 1
  exact div_le_div_of_nonneg_right
    (Nat.cast_le.2 (Nat.pow_le_pow_right (by decide) hplace)) cast_unitsPerOne_pos.le

theorem valueOfRank_eq_mul (rank : Nat) :
    valueOfRank rank = significand rank * unitOfRank rank := by
  rw [valueOfRank, magnitudeOfRank, Nat.cast_mul, mul_div_assoc, unitOfRank]

theorem unitOfRank_of_place_eq_zero {rank : Nat} (h : place rank = 0) :
    unitOfRank rank = (unitsPerOne : ℚ)⁻¹ := by
  rw [unitOfRank, h, Nat.pow_zero, Nat.cast_one, one_div]

/-- Above the least place a value is large against its unit. -/
theorem place_eq_zero_or_le (rank : Nat) :
    place rank = 0 ∨ 2 ^ 52 * unitOfRank rank ≤ valueOfRank rank := by
  refine (place_eq_zero_or rank).imp_right fun h ↦ ?_
  rw [valueOfRank_eq_mul]
  exact mul_le_mul_of_nonneg_right (by exact_mod_cast h) (unitOfRank_pos rank).le

end Number

namespace Decimal

open Number

theorem value_nonneg (d : Decimal) : 0 ≤ d.value :=
  mul_nonneg (Nat.cast_nonneg _) (zpow_nonneg (by norm_num) _)

/-- The value as the ratio that is rounded. -/
theorem value_eq_div (d : Decimal) : d.value = d.numerator / d.denominator := by
  obtain ⟨digits, exponent⟩ := d
  rw [value, numerator, denominator]
  push_cast
  rcases exponent with n | n
  · simp
  · simp [zpow_negSucc, div_eq_mul_inv]

theorem value_exact (rank : Nat) : (exact rank).value = valueOfRank rank := by
  have hten : (10 : ℚ) ^ places = 5 ^ places * 2 ^ places := by
    rw [← mul_pow]
    norm_num
  rw [value_eq_div, exact, numerator, denominator, valueOfRank, unitsPerOne]
  push_cast
  simp only [Int.toNat_neg_natCast, Int.neg_neg, Int.toNat_natCast, pow_zero, mul_one, hten]
  field_simp

/-! ### Reading and middles -/

/-- A decimal is read as more than a rank if it is above the middle between the rank and the next
one, or in the middle with the rank odd. -/
theorem lt_rank_iff {d : Decimal} {rank : Nat} (hrank : rank < infiniteRank) :
    rank < d.rank ↔
      valueOfRank rank + valueOfRank (rank + 1) < 2 * d.value ∨
      valueOfRank rank + valueOfRank (rank + 1) = 2 * d.value ∧ rank % 2 = 1 := by
  have hden : (0 : ℚ) < d.denominator := Nat.cast_pos.2 d.denominator_pos
  have hone := cast_unitsPerOne_pos
  have hmiddle : valueOfRank rank + valueOfRank (rank + 1) =
      ((d.denominator * (magnitudeOfRank rank + magnitudeOfRank (rank + 1)) : Nat) : ℚ) /
        (d.denominator * unitsPerOne) := by
    rw [valueOfRank, valueOfRank]
    push_cast
    field_simp
  have hvalue : 2 * d.value =
      ((2 * (d.numerator * unitsPerOne) : Nat) : ℚ) / (d.denominator * unitsPerOne) := by
    rw [value_eq_div]
    push_cast
    field_simp
  have hscale : (0 : ℚ) < d.denominator * unitsPerOne := mul_pos hden hone
  rw [Decimal.rank, lt_rankOfRatio_iff d.denominator_pos hrank, hmiddle, hvalue,
    div_lt_div_iff_of_pos_right hscale, div_left_inj' hscale.ne', Nat.cast_lt, Nat.cast_inj]

/-- Reading is monotone. -/
theorem rank_mono {d e : Decimal} (h : d.value ≤ e.value) : d.rank ≤ e.rank := by
  by_contra hlt
  have hlt : e.rank < d.rank := Nat.lt_of_not_le hlt
  have hfinite : e.rank < infiniteRank := Nat.lt_of_lt_of_le hlt (rank_le_infiniteRank d)
  refine Nat.lt_irrefl e.rank ((lt_rank_iff hfinite).2 ?_)
  rcases (lt_rank_iff hfinite).1 hlt with hmiddle | ⟨hmiddle, hodd⟩
  · exact .inl (by linarith)
  · rcases h.lt_or_eq with h | h
    · exact .inl (by linarith)
    · exact .inr ⟨by linarith, hodd⟩

theorem rank_eq_of_value_eq {d e : Decimal} (h : d.value = e.value) : d.rank = e.rank :=
  Nat.le_antisymm (rank_mono h.le) (rank_mono h.ge)

/-- A decimal between two that read alike reads as they do. -/
theorem rank_eq_of_between {d e f : Decimal} {rank : Nat} (hd : d.rank = rank) (he : e.rank = rank)
    (hdf : d.value ≤ f.value) (hfe : f.value ≤ e.value) : f.rank = rank :=
  Nat.le_antisymm (he ▸ rank_mono hfe) (hd ▸ rank_mono hdf)

/-- Of two values the nearer one is on the same side of their middle. -/
theorem abs_sub_lt_abs_sub {v near far : ℚ} (h : 0 < (near - far) * (2 * v - (near + far))) :
    |v - near| < |v - far| := by
  refine sq_lt_sq.1 (sub_pos.1 ?_)
  calc 0 < (near - far) * (2 * v - (near + far)) := h
    _ = (v - far) ^ 2 - (v - near) ^ 2 := by ring

theorem abs_sub_eq_abs_sub {v near far : ℚ} (h : 2 * v = near + far) :
    |v - near| = |v - far| := by
  rw [show v - near = -(v - far) by linarith, abs_neg]

section Finite

variable {d : Decimal} {rank : Nat} (hrank : rank < infiniteRank)
include hrank

theorem rank_eq_of_value_eq_valueOfRank (h : d.value = valueOfRank rank) : d.rank = rank :=
  (rank_eq_of_value_eq (h.trans (value_exact rank).symm)).trans (rank_exact hrank)

/-- A decimal above the value of a rank by less than half a unit reads as the rank. -/
theorem rank_eq_of_close (hle : valueOfRank rank ≤ d.value)
    (hlt : d.value < valueOfRank rank + unitOfRank rank / 2) : d.rank = rank := by
  apply Nat.le_antisymm
  · by_contra h
    rcases (lt_rank_iff hrank).1 (Nat.lt_of_not_le h) with h | ⟨h, -⟩ <;>
    · rw [valueOfRank_succ] at h
      linarith
  · calc rank = (exact rank).rank := (rank_exact hrank).symm
      _ ≤ d.rank := rank_mono ((value_exact rank).trans_le hle)

/-- A decimal that reads as a rank is not above the middle between the rank and the next one. -/
theorem below_middle (h : d.rank = rank) :
    2 * d.value < valueOfRank rank + valueOfRank (rank + 1) ∨
    2 * d.value = valueOfRank rank + valueOfRank (rank + 1) ∧ rank % 2 = 0 := by
  have hnot : ¬rank < d.rank := by omega
  rw [lt_rank_iff hrank, not_or, not_and] at hnot
  obtain ⟨hle, hodd⟩ := hnot
  rcases (not_lt.1 hle).lt_or_eq with hlt | heq
  · exact .inl hlt
  · have := hodd heq.symm
    exact .inr ⟨heq, by omega⟩

/-- A decimal that reads as a rank is not below the middle between the rank and the one before. -/
theorem above_middle (h : d.rank = rank) {previous : Nat} (hprevious : previous + 1 = rank) :
    valueOfRank previous + valueOfRank rank < 2 * d.value ∨
    valueOfRank previous + valueOfRank rank = 2 * d.value ∧ rank % 2 = 0 := by
  have hlt : previous < d.rank := by omega
  rw [lt_rank_iff (by omega), hprevious] at hlt
  exact hlt.imp_right fun ⟨heq, hodd⟩ ↦ ⟨heq, by omega⟩

/-- A decimal is at most half a unit away from the rank it reads as. -/
theorem abs_value_sub_le (h : d.rank = rank) :
    |d.value - valueOfRank rank| ≤ unitOfRank rank / 2 := by
  have hupper : 2 * d.value ≤ valueOfRank rank + valueOfRank (rank + 1) :=
    (below_middle hrank h).elim le_of_lt fun ⟨heq, _⟩ ↦ heq.le
  have hlower : 2 * (valueOfRank rank - d.value) ≤ unitOfRank rank := by
    cases rank with
    | zero =>
      have := d.value_nonneg
      have := unitOfRank_pos 0
      rw [valueOfRank_zero]
      linarith
    | succ previous =>
      have hmiddle : valueOfRank previous + valueOfRank (previous + 1) ≤ 2 * d.value :=
        (above_middle hrank h rfl).elim le_of_lt fun ⟨heq, _⟩ ↦ heq.le
      have hmono := unitOfRank_mono (Nat.le_succ previous)
      rw [valueOfRank_succ] at hmiddle ⊢
      linarith
  rw [valueOfRank_succ] at hupper
  rcases abs_cases (d.value - valueOfRank rank) with ⟨habs, -⟩ | ⟨habs, -⟩ <;>
  · rw [habs]
    linarith

/-- Reading is rounding to the nearest. -/
theorem isNearest_rank (h : d.rank = rank) : IsNearest d.value rank := by
  intro other hne
  have hmono := strictMono_valueOfRank
  rcases Nat.lt_or_gt_of_ne hne with hlt | hgt
  · obtain ⟨previous, rfl⟩ : ∃ previous, rank = previous + 1 := ⟨rank - 1, by omega⟩
    have hother : valueOfRank other ≤ valueOfRank previous :=
      hmono.monotone (Nat.le_of_lt_succ hlt)
    have hpos : 0 < valueOfRank (previous + 1) - valueOfRank other := sub_pos.2 (hmono hlt)
    rcases above_middle hrank h rfl with hmiddle | ⟨hmiddle, heven⟩
    · exact .inl (abs_sub_lt_abs_sub (mul_pos hpos (by linarith)))
    · rcases hother.lt_or_eq with hother | hother
      · exact .inl (abs_sub_lt_abs_sub (mul_pos hpos (by linarith)))
      · exact .inr ⟨abs_sub_eq_abs_sub (by linarith), heven⟩
  · have hother : valueOfRank (rank + 1) ≤ valueOfRank other := hmono.monotone hgt
    have hneg : valueOfRank rank - valueOfRank other < 0 := sub_neg.2 (hmono hgt)
    rcases below_middle hrank h with hmiddle | ⟨hmiddle, heven⟩
    · exact .inl (abs_sub_lt_abs_sub (mul_pos_of_neg_of_neg hneg (by linarith)))
    · rcases hother.lt_or_eq with hother | hother
      · exact .inl (abs_sub_lt_abs_sub (mul_pos_of_neg_of_neg hneg (by linarith)))
      · exact .inr ⟨abs_sub_eq_abs_sub (by linarith), heven⟩

end Finite

end Decimal

end LexScript

import LexScript.Proofs.Numbers.Grids

/-!
# Shortest decimals

The decimal that shows a rank is a shortest one among those that read as it, and no other decimal of
the same length that reads as the rank is nearer to its value. The search starts above the value, so
the grid before the one that is hit has no point that reads back, or the decimal has one digit. A
decimal that is not longer and lies on a finer grid is then below a power of ten that reads back
too, which leaves only one digit for it. The search comes to an end because its last grid is finer
than half the distance between neighbouring ranks.

## Main definitions

* `Decimal.IsShortest` : the decimals that may show a rank.

## Main statements

* `Decimal.isShortest_shortest` : the decimal that shows a finite rank is one of them.
-/

namespace LexScript

-- The powers of natural numbers are those of the core library.
attribute [local instance (high)] instPowNat

namespace Decimal

open Number

/-- A shortest decimal that reads as a rank, and of the shortest ones one nearest to the rank. -/
structure IsShortest (d : Decimal) (rank : Nat) : Prop where
  reads : d.rank = rank
  length_le : ∀ e : Decimal, e.rank = rank → d.length ≤ e.length
  distance_le : ∀ e : Decimal, e.rank = rank → e.length = d.length →
    |d.value - valueOfRank rank| ≤ |e.value - valueOfRank rank|

/-! ### One digit on a finer grid -/

theorem unitsPerOne_bounds :
    20 * 10 ^ 322 < unitsPerOne ∧ unitsPerOne < 21 * 10 ^ 322 := by
  decide +kernel

/-- The only power of ten above one least unit and not above ten of them is two of them and a
little more. -/
theorem units_of_power {grid : Int} (hlow : (unitsPerOne : ℚ)⁻¹ < 10 ^ grid)
    (hhigh : 10 ^ grid ≤ 10 * (unitsPerOne : ℚ)⁻¹) :
    2 * (unitsPerOne : ℚ)⁻¹ < 10 ^ grid ∧ 10 * 10 ^ grid < 21 * (unitsPerOne : ℚ)⁻¹ := by
  have hone := cast_unitsPerOne_pos
  have hscale : (0 : ℚ) < 10 ^ 322 := by positivity
  have hbounds : 20 * (unitsPerOne : ℚ)⁻¹ < 10 ^ (-322 : Int) ∧
      10 ^ (-322 : Int) < 21 * (unitsPerOne : ℚ)⁻¹ := by
    obtain ⟨hlower, hupper⟩ := unitsPerOne_bounds
    have hlower := Nat.cast_lt (α := ℚ) |>.2 hlower
    have hupper := Nat.cast_lt (α := ℚ) |>.2 hupper
    rw [Nat.cast_mul, Nat.cast_pow] at hlower hupper
    have hinv : (10 : ℚ) ^ (-322 : Int) = (10 ^ 322)⁻¹ := zpow_neg 10 322
    rw [hinv, ← div_eq_mul_inv, ← div_eq_mul_inv, div_lt_iff₀ hone, lt_div_iff₀ hone,
      inv_mul_eq_div, lt_div_iff₀ hscale, div_lt_iff₀ hscale]
    exact ⟨hlower, hupper⟩
  have hten : ∀ m n : Int, m = n + 1 → (10 : ℚ) ^ m = 10 * 10 ^ n := by
    rintro _ n rfl
    rw [zpow_add_one₀ (by norm_num), mul_comm]
  have hfirst := hten (-322) (-323) rfl
  have hsecond := hten (-323) (-324) rfl
  rcases lt_trichotomy grid (-323) with h | rfl | h
  · have : (10 : ℚ) ^ grid ≤ 10 ^ (-324 : Int) := ten_zpow_le (by omega)
    linarith
  · exact ⟨by linarith, by linarith⟩
  · have : (10 : ℚ) ^ (-322 : Int) ≤ 10 ^ grid := ten_zpow_le (by omega)
    linarith

/-- A power of ten above the value of a rank and a decimal a tenth below the power read alike for
one rank only, the second, and there the power is the nearer one. -/
theorem power_nearer {e : Decimal} {rank : Nat} {grid : Int} (hrank : rank < infiniteRank)
    (hne : rank ≠ 0) (hpower : (⟨1, grid⟩ : Decimal).rank = rank) (he : e.rank = rank)
    (hlt : valueOfRank rank < 10 ^ grid) (htenth : 10 * e.value ≤ 9 * 10 ^ grid) :
    10 ^ grid - valueOfRank rank ≤ |e.value - valueOfRank rank| := by
  have hunit := unitOfRank_pos rank
  have hlower := (abs_le.1 (abs_value_sub_le hrank he)).1
  have hupper := (abs_le.1 (abs_value_sub_le hrank hpower)).2
  rw [value_one] at hupper
  have hvalue := valueOfRank_eq_mul rank
  have hplace : place rank = 0 := (place_eq_zero_or_le rank).resolve_right (by linarith)
  have hsignificand : significand rank = rank := by
    have := place_mul_add_significand rank
    omega
  rw [unitOfRank_of_place_eq_zero hplace] at hlower hupper hvalue hunit
  rw [hsignificand] at hvalue
  have hmore : (unitsPerOne : ℚ)⁻¹ ≤ valueOfRank rank := by
    rw [hvalue]
    exact le_mul_of_one_le_left hunit.le (by exact_mod_cast Nat.pos_of_ne_zero hne)
  obtain ⟨habove, hbelow⟩ := units_of_power (hmore.trans_lt hlt) (by linarith)
  have hgt : (1 : ℚ) < rank :=
    lt_of_mul_lt_mul_right (a := (unitsPerOne : ℚ)⁻¹) (by linarith) hunit.le
  have hlt : (rank : ℚ) < 3 :=
    lt_of_mul_lt_mul_right (a := (unitsPerOne : ℚ)⁻¹) (by linarith) hunit.le
  have hsecond : rank = 2 := by
    have hgt : 1 < rank := by exact_mod_cast hgt
    have hlt : rank < 3 := by exact_mod_cast hlt
    omega
  have hcast : (rank : ℚ) = 2 := by rw [hsecond, Nat.cast_ofNat]
  rw [hcast] at hvalue
  exact le_abs.2 (.inr (by linarith))

/-! ### Among all decimals -/

section Nearest

variable {d : Decimal} {rank : Nat} {grid : Int} (hrank : rank < infiniteRank) (hne : rank ≠ 0)
include hrank hne

/-- On a finer grid no decimal of one digit is nearer. -/
theorem IsNearestOn.distance_le_of_finer (hd : d.IsNearestOn rank grid) {e : Decimal}
    (he : e.rank = rank) (hfiner : e.exponent < grid) (hlength : e.length = 1) :
    |d.value - valueOfRank rank| ≤ |e.value - valueOfRank rank| := by
  have hpower : (⟨1, grid⟩ : Decimal).rank = rank := by
    have hpos := d.length_pos
    have hexponent := hd.exponent_eq
    exact power_reads hd.reads he hne (by omega) (by omega)
  have htenth : 10 * e.value ≤ 9 * 10 ^ grid := by
    have hdigits : e.digits < 10 ^ 1 := (length_le_iff Nat.one_pos).1 hlength.le
    have hcast : (e.digits : ℚ) ≤ 9 := by exact_mod_cast Nat.le_of_lt_succ hdigits
    calc 10 * e.value = e.digits * 10 ^ (e.exponent + 1) := by
          rw [value, zpow_add_one₀ (by norm_num)]
          ring
      _ ≤ 9 * 10 ^ grid := mul_le_mul hcast (ten_zpow_le hfiner) (ten_zpow_pos _).le (by norm_num)
  refine (hd.distance_le 1 hpower).trans ?_
  have hpos := ten_zpow_pos grid
  rw [value_one]
  rcases le_or_gt (10 ^ grid) (valueOfRank rank) with hle | hlt
  · rw [abs_sub_comm, abs_of_nonneg (sub_nonneg.2 hle)]
    exact le_abs.2 (.inr (by linarith))
  · rw [abs_of_pos (sub_pos.2 hlt)]
    exact power_nearer hrank hne hpower he hlt htenth

/-- The nearest point of a grid is shortest among all decimals that read as the rank if it can be
written with one digit or the next coarser grid has no such decimal. -/
theorem IsNearestOn.isShortest (hd : d.IsNearestOn rank grid) {written : Decimal}
    (hvalue : written.value = d.value)
    (h : written.length = 1 ∨ written.length = d.length ∧ ¬Reaches rank (grid + 1)) :
    written.IsShortest rank := by
  have hexponent := hd.exponent_eq
  -- A decimal on a finer grid that is not longer makes a power of ten on a coarser grid read back.
  have hcoarser : ∀ e : Decimal, e.rank = rank → ¬Reaches rank (grid + 1) →
      e.exponent + e.length ≤ grid + d.length - 1 → d.length ≤ 1 := by
    intro e he hno hle
    by_contra hlt
    have hpower := power_reads hd.reads he hne hle (by omega)
    exact hno (reaches_of_reads hpower (by dsimp only; omega))
  refine ⟨(rank_eq_of_value_eq hvalue).trans hd.reads, fun e he ↦ ?_, fun e he hlength ↦ ?_⟩
  · rcases h with h | ⟨h, hno⟩
    · rw [h]
      exact e.length_pos
    · rw [h]
      by_contra hlt
      have hle : e.exponent ≤ grid := by
        by_contra hgt
        exact hno (reaches_of_reads he (by omega))
      have := hcoarser e he hno (by omega)
      have := e.length_pos
      omega
  · rw [hvalue]
    rcases lt_or_ge e.exponent grid with hfiner | hon
    · refine hd.distance_le_of_finer hrank hne he hfiner ?_
      rcases h with h | ⟨h, hno⟩
      · rw [hlength, h]
      · have := hcoarser e he hno (by omega)
        have := e.length_pos
        omega
    · obtain ⟨steps, hsteps⟩ := e.exists_steps hon
      rw [← hsteps]
      exact hd.distance_le steps ((rank_eq_of_value_eq hsteps).trans he)

end Nearest

/-! ### The search -/

/-- What the search finds is chosen on one of its grids, the first of them or one after a grid
without a point that reads back. -/
theorem search_cases {tie : Tie} {rank tries : Nat} {start : Int} {d : Decimal}
    (h : search tie rank tries start = some d) :
    ∃ grid, onGrid? tie rank grid = some d ∧
      (grid = start ∨ onGrid? tie rank (grid + 1) = none) := by
  induction tries generalizing start with
  | zero => cases h
  | succ tries ih =>
    rw [search, Option.orElse_eq_orElse, Option.orElse_eq_or, Option.or_eq_some_iff] at h
    rcases h with h | ⟨hnone, h⟩
    · exact ⟨start, h, .inl rfl⟩
    · obtain ⟨grid, hgrid, hbefore⟩ := ih h
      refine ⟨grid, hgrid, .inr ?_⟩
      rcases hbefore with rfl | hbefore
      · simpa only [Int.sub_add_cancel] using hnone
      · exact hbefore

/-- The search finds a decimal if one of its grids has a point that reads back. -/
theorem search_ne_none {tie : Tie} {rank : Nat} (hrank : rank < infiniteRank) {tries k : Nat}
    (hk : k < tries) {start : Int} (h : Reaches rank (start - k)) :
    search tie rank tries start ≠ none := by
  induction tries generalizing start k with
  | zero => cases hk
  | succ tries ih =>
    rw [search, Option.orElse_eq_orElse, Option.orElse_eq_or, Ne, Option.or_eq_none_iff]
    rintro ⟨hnone, hrest⟩
    cases k with
    | zero => exact not_reaches_of_onGrid? hrank hnone (by simpa using h)
    | succ k =>
      refine ih (Nat.lt_of_succ_lt_succ hk) ?_ hrest
      rwa [show start - 1 - (k : Int) = start - ((k + 1 : Nat) : Int) by push_cast; ring]

/-! ### The grids of the search -/

/-- Powers of two and of ten are compared by a fraction close to the logarithm. -/
theorem two_zpow_le_of_pow {m n : Int} {p q : Nat} (hp : p ≠ 0)
    (hbase : ((2 : ℚ) ^ p) ^ m ≤ ((10 : ℚ) ^ q) ^ m) (hle : q * m ≤ p * n) :
    (2 : ℚ) ^ m ≤ 10 ^ n := by
  refine (pow_le_pow_iff_left₀ (by positivity) (by positivity) hp).1 ?_
  calc ((2 : ℚ) ^ m) ^ p = ((2 : ℚ) ^ p) ^ m := by
        rw [← zpow_natCast, ← zpow_natCast, ← zpow_mul, ← zpow_mul, mul_comm]
    _ ≤ ((10 : ℚ) ^ q) ^ m := hbase
    _ = (10 : ℚ) ^ (q * m) := by rw [zpow_mul, zpow_natCast]
    _ ≤ (10 : ℚ) ^ (p * n) := ten_zpow_le hle
    _ = ((10 : ℚ) ^ n) ^ p := by rw [mul_comm, zpow_mul, zpow_natCast]

theorem two_zpow_le_ten_zpow {m n : Int} (hpos : 28 * m ≤ 93 * n) (hneg : 31 * m ≤ 103 * n) :
    (2 : ℚ) ^ m ≤ 10 ^ n := by
  -- The fraction has to be above the logarithm for one sign and below it for the other.
  rcases le_or_gt 0 m with hm | hm
  · exact two_zpow_le_of_pow (show 93 ≠ 0 by decide)
      (zpow_le_zpow_left₀ hm (by norm_num) (by norm_num)) hpos
  · obtain ⟨k, rfl⟩ : ∃ k : Nat, m = -k := ⟨(-m).toNat, by omega⟩
    refine two_zpow_le_of_pow (show 103 ≠ 0 by decide) ?_ hneg
    rw [zpow_neg, zpow_neg, zpow_natCast, zpow_natCast]
    exact inv_anti₀ (by positivity) (pow_le_pow_left₀ (by positivity) (by norm_num) k)

theorem ten_zpow_le_two_zpow {m n : Int} (hpos : 93 * n ≤ 28 * m) (hneg : 103 * n ≤ 31 * m) :
    (10 : ℚ) ^ n ≤ 2 ^ m := by
  have hinv : (2 : ℚ) ^ (-m) ≤ 10 ^ (-n) := two_zpow_le_ten_zpow (by omega) (by omega)
  rw [zpow_neg, zpow_neg] at hinv
  exact (inv_le_inv₀ (by positivity) (by positivity)).1 hinv

theorem place_magnitudeOfRank (rank : Nat) : place rank = (magnitudeOfRank rank).log2 - 52 :=
  (placeOfUnits_magnitudeOfRank rank).symm

theorem log2_magnitudeOfRank_lt {rank : Nat} (hrank : rank < infiniteRank) :
    (magnitudeOfRank rank).log2 < 2098 := by
  have hplace := place_magnitudeOfRank rank
  have hle : place rank ≤ 2045 := by
    unfold place
    unfold infiniteRank at hrank
    omega
  omega

theorem valueOfRank_lt (rank : Nat) :
    valueOfRank rank < 2 ^ ((magnitudeOfRank rank).log2 - 1073 : Int) := by
  have hlog : magnitudeOfRank rank < 2 ^ ((magnitudeOfRank rank).log2 + 1) := Nat.lt_log2_self
  have hcast : (magnitudeOfRank rank : ℚ) < 2 ^ ((magnitudeOfRank rank).log2 + 1) := by
    exact_mod_cast hlog
  have hexponent : ((magnitudeOfRank rank).log2 - 1073 : Int) =
      ((magnitudeOfRank rank).log2 + 1 : Nat) - (places : Nat) := by
    rw [places]
    omega
  rw [hexponent, zpow_sub₀ two_ne_zero, zpow_natCast, zpow_natCast, valueOfRank, unitsPerOne,
    Nat.cast_pow]
  exact div_lt_div_of_pos_right hcast (by positivity)

theorem two_zpow_le_unitOfRank (rank : Nat) :
    2 ^ ((magnitudeOfRank rank).log2 - 1126 : Int) ≤ unitOfRank rank := by
  have hplace := place_magnitudeOfRank rank
  have hunit : unitOfRank rank = (2 : ℚ) ^ ((place rank : Int) - (places : Nat)) := by
    rw [zpow_sub₀ two_ne_zero, zpow_natCast, zpow_natCast, unitOfRank, unitsPerOne, Nat.cast_pow,
      Nat.cast_pow]
    rfl
  rw [hunit]
  refine zpow_le_zpow_right₀ (by norm_num) ?_
  rw [places]
  omega

section Start

variable {rank : Nat} (hrank : rank < infiniteRank)
include hrank

/-- The search starts with a grid whose tenfold is above the value. -/
theorem valueOfRank_lt_start :
    valueOfRank rank < 10 ^ (coarsestGrid (magnitudeOfRank rank) + 1) := by
  have hlog := log2_magnitudeOfRank_lt hrank
  refine (valueOfRank_lt rank).trans_le (two_zpow_le_ten_zpow ?_ ?_) <;>
  · unfold coarsestGrid
    omega

/-- The search goes down to a grid finer than half a unit. -/
theorem finest_lt_unitOfRank :
    10 ^ (coarsestGrid (magnitudeOfRank rank) - (23 : Nat)) < unitOfRank rank / 2 := by
  have hlog := log2_magnitudeOfRank_lt hrank
  have hpower : (10 : ℚ) ^ (coarsestGrid (magnitudeOfRank rank) - (23 : Nat)) ≤
      2 ^ ((magnitudeOfRank rank).log2 - 1128 : Int) := by
    apply ten_zpow_le_two_zpow <;>
    · unfold coarsestGrid
      omega
  have hquarter : (2 : ℚ) ^ ((magnitudeOfRank rank).log2 - 1126 : Int) =
      2 ^ ((magnitudeOfRank rank).log2 - 1128 : Int) * 4 := by
    rw [show ((magnitudeOfRank rank).log2 - 1126 : Int) =
      ((magnitudeOfRank rank).log2 - 1128) + 2 by omega, zpow_add₀ two_ne_zero]
    norm_num
  have hpos : (0 : ℚ) < 2 ^ ((magnitudeOfRank rank).log2 - 1128 : Int) := zpow_pos two_pos _
  calc (10 : ℚ) ^ (coarsestGrid (magnitudeOfRank rank) - (23 : Nat))
      ≤ 2 ^ ((magnitudeOfRank rank).log2 - 1128 : Int) := hpower
    _ < 2 ^ ((magnitudeOfRank rank).log2 - 1126 : Int) / 2 := by
        rw [hquarter]
        linarith
    _ ≤ unitOfRank rank / 2 := by
        have := two_zpow_le_unitOfRank rank
        linarith

theorem reaches_finest : Reaches rank (coarsestGrid (magnitudeOfRank rank) - (23 : Nat)) := by
  have hfinest := finest_lt_unitOfRank hrank
  generalize coarsestGrid (magnitudeOfRank rank) - (23 : Nat) = grid at *
  have hlow := value_below_le rank grid
  have hstep : (above rank grid).value = (below rank grid).value + 10 ^ grid := by
    simp only [value, above, below]
    push_cast
    ring
  exact ⟨_, rank_eq_of_close hrank (lt_value_above rank grid).le
    (show (above rank grid).value < _ by linarith)⟩

end Start

/-! ### The decimal that shows a rank -/

theorem rank_dropZero {digits : Nat} (h : digits % 10 = 0) (exponent : Int) :
    rank ⟨digits / 10, exponent + 1⟩ = rank ⟨digits, exponent⟩ := by
  have hmove := rank_mul_pow (digits / 10) 1 exponent
  rw [Nat.pow_one, Nat.div_mul_cancel (Nat.dvd_of_mod_eq_zero h)] at hmove
  exact hmove.symm

theorem value_dropZeros (fuel : Nat) (d : Decimal) : (dropZeros fuel d).value = d.value := by
  obtain ⟨k, hdigits, hexponent⟩ := exists_dropZeros fuel d
  calc (dropZeros fuel d).value = value ⟨(dropZeros fuel d).digits, d.exponent + k⟩ := by
        rw [← hexponent]
    _ = value ⟨d.digits, d.exponent⟩ := by rw [← value_mul_pow, ← hdigits]

theorem dropZeros_eq_self (fuel : Nat) {d : Decimal} (h : ¬(d.digits ≠ 0 ∧ d.digits % 10 = 0)) :
    dropZeros fuel d = d := by
  cases fuel with
  | zero => rfl
  | succ fuel => exact if_neg h

theorem length_eq_one {d : Decimal} (h : d.digits < 10) : d.length = 1 :=
  Nat.le_antisymm ((length_le_iff Nat.one_pos).2 h) d.length_pos

theorem length_dropZeros {d : Decimal} (h : d.digits ≤ 10) :
    (dropZeros d.digits.log2 d).length = 1 := by
  obtain ⟨digits, exponent⟩ := d
  rcases Nat.lt_or_eq_of_le h with h | rfl
  · dsimp only at h
    rw [dropZeros_eq_self _ (by dsimp only; omega)]
    exact length_eq_one h
  · have hlog : Nat.log2 10 = 3 := (Nat.log2_eq_iff (by decide)).2 (by decide)
    have hdrop : dropZeros 3 ⟨10, exponent⟩ = ⟨1, exponent + 1⟩ := by simp [dropZeros]
    rw [hlog, hdrop]
    exact length_eq_one (show 1 < 10 by decide)

section Hit

variable {rank : Nat} {grid : Int} {d : Decimal} (hd : d.IsNearestOn rank grid)
include hd

theorem IsNearestOn.digits_mod_ne_zero (hno : ¬Reaches rank (grid + 1)) : d.digits % 10 ≠ 0 := by
  intro h
  have hreads := (rank_dropZero h d.exponent).trans hd.reads
  rw [hd.exponent_eq] at hreads
  exact hno ⟨_, hreads⟩

/-- On the grid below a coarser one that is above the value, ten steps are not exceeded. -/
theorem IsNearestOn.digits_le_ten (hrank : rank < infiniteRank) (hne : rank ≠ 0)
    (hlt : valueOfRank rank < 10 ^ (grid + 1)) (hreaches : Reaches rank (grid + 1)) :
    d.digits ≤ 10 := by
  obtain ⟨steps, hsteps⟩ := hreaches
  have hpos := ten_zpow_pos grid
  have hten : (⟨10, grid⟩ : Decimal).value = 10 ^ (grid + 1) := by
    rw [value, zpow_add_one₀ (by norm_num), mul_comm]
    rfl
  have hreads : (⟨10, grid⟩ : Decimal).rank = rank := by
    refine rank_eq_of_between (rank_exact hrank) hsteps ?_ ?_
    · rw [value_exact, hten]
      exact hlt.le
    · have hone : 1 ≤ steps := Nat.pos_of_ne_zero (digits_ne_zero hsteps hne)
      rw [hten, ← value_one]
      exact value_le_value hone _
  have hdistance := hd.distance_le 10 hreads
  rw [hten, abs_of_pos (sub_pos.2 hlt), ← hten] at hdistance
  have hle : (d.digits : ℚ) * 10 ^ grid ≤ (10 : Nat) * 10 ^ grid := by
    have hle : d.value ≤ (⟨10, grid⟩ : Decimal).value := by
      linarith [le_abs_self (d.value - valueOfRank rank)]
    rwa [value, hd.exponent_eq] at hle
  exact Nat.cast_le.1 (le_of_mul_le_mul_right hle hpos)

end Hit

/-- The decimal that shows a finite rank is a shortest one that reads as it, and nearest to it among
those. -/
theorem isShortest_shortest (tie : Tie) {rank : Nat} (hrank : rank < infiniteRank) :
    (shortest tie rank).IsShortest rank := by
  by_cases hne : rank = 0
  · subst hne
    have hzero : shortest tie 0 = ⟨0, 0⟩ := rfl
    have hvalue : (⟨0, 0⟩ : Decimal).value = valueOfRank 0 := by simp [value]
    rw [hzero]
    refine ⟨rank_eq_of_value_eq_valueOfRank hrank hvalue, fun e _ ↦ ?_, fun e _ _ ↦ ?_⟩
    · rw [length_eq_one (by decide)]
      exact e.length_pos
    · rw [hvalue, sub_self, abs_zero]
      exact abs_nonneg _
  · have hfound : search tie rank gridsTried (coarsestGrid (magnitudeOfRank rank)) ≠ none :=
      search_ne_none hrank (by decide : 23 < gridsTried) (reaches_finest hrank)
    obtain ⟨d, hsearch⟩ := Option.ne_none_iff_exists'.1 hfound
    obtain ⟨grid, hgrid, hbefore⟩ := search_cases hsearch
    have hd := isNearestOn_of_onGrid? hrank hgrid
    have hshortest : shortest tie rank = dropZeros d.digits.log2 d := by
      simp only [shortest, if_neg hne, hsearch, Option.getD_some]
    rw [hshortest]
    refine hd.isShortest hrank hne (value_dropZeros _ d) ?_
    by_cases hreaches : Reaches rank (grid + 1)
    · rcases hbefore with rfl | hbefore
      · exact .inl (length_dropZeros
          (hd.digits_le_ten hrank hne (valueOfRank_lt_start hrank) hreaches))
      · exact absurd hreaches (not_reaches_of_onGrid? hrank hbefore)
    · have hmod := hd.digits_mod_ne_zero hreaches
      exact .inr ⟨congrArg length (dropZeros_eq_self _ fun h ↦ hmod h.2), hreaches⟩

end Decimal

end LexScript

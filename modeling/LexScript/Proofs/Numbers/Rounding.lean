import Mathlib.Order.Monotone.Basic
import Mathlib.Tactic.Ring
import LexScript.Proofs.Numerals

/-!
# Rounding to the nearest

The ranks enumerate the magnitudes in ascending order, and from one rank to the next the magnitude
grows by a power of two, the unit of the rank. A ratio is rounded to a rank above another one
exactly if it lies above the middle between that one and the next, or in the middle if the next one
is even. This determines the rank of a ratio, says that it is the nearest one with ties going to the
even neighbour, and makes rounding monotone.

## Main statements

* `magnitudeOfRank_succ` : the distance between neighbours.
* `lt_rankOfRatio_iff` : rounding by means of the middles between neighbours.
-/

namespace LexScript.Number

-- The powers in the definitions are those of the core library.
attribute [local instance (high)] instPowNat

/-! ### Whole quotients -/

/-- A quotient is rounded to more than `k` if it is above `k` and a half, or there with `k` odd. -/
theorem lt_nearestQuotient_iff {a b k : Nat} (hb : 0 < b) :
    k < nearestQuotient a b ↔ (2 * k + 1) * b < 2 * a ∨ (2 * k + 1) * b = 2 * a ∧ k % 2 = 1 := by
  have hdiv : b * (a / b) + a % b = a := Nat.div_add_mod a b
  have hmod : a % b < b := Nat.mod_lt a hb
  unfold nearestQuotient
  generalize a / b = q at *
  generalize a % b = r at *
  subst hdiv
  have hmiddle : (2 * k + 1) * b = 2 * (b * k) + b := by ring
  rw [hmiddle]
  rcases Nat.lt_trichotomy k q with hk | rfl | hk
  · have hle : b * k + b ≤ b * q := Nat.mul_le_mul_left b hk
    dsimp only
    split
    · omega
    · split <;> omega
  · dsimp only
    split
    · omega
    · split <;> omega
  · have hle : b * q + b ≤ b * k := Nat.mul_le_mul_left b hk
    dsimp only
    split
    · omega
    · split <;> omega

/-- A whole number that a quotient reaches is not above the rounded quotient. -/
theorem le_nearestQuotient {a b k : Nat} (hb : 0 < b) (h : k * b ≤ a) :
    k ≤ nearestQuotient a b := by
  rcases k with _ | k
  · exact Nat.zero_le _
  · refine (lt_nearestQuotient_iff hb).2 (.inl ?_)
    have : (2 * k + 1) * b + b = 2 * ((k + 1) * b) := by ring
    omega

/-- A whole number that a quotient does not exceed is not below the rounded quotient. -/
theorem nearestQuotient_le {a b k : Nat} (hb : 0 < b) (h : a ≤ k * b) :
    nearestQuotient a b ≤ k := by
  by_contra hlt
  have hmiddle := (lt_nearestQuotient_iff hb).1 (Nat.lt_of_not_le hlt)
  have : (2 * k + 1) * b = 2 * (k * b) + b := by ring
  omega

/-! ### Neighbours -/

theorem place_mul_add_significand (rank : Nat) :
    place rank * 2 ^ 52 + significand rank = rank := by
  unfold place significand
  split <;> omega

theorem significand_lt (rank : Nat) : significand rank < 2 ^ 53 := by
  unfold significand
  split <;> omega

theorem place_eq_zero_or (rank : Nat) : place rank = 0 ∨ 2 ^ 52 ≤ significand rank := by
  unfold place significand
  split <;> omega

/-- The magnitude of a rank whose parts are given; the last significand of a place is twice the
first one of the next. -/
theorem magnitudeOfRank_of_parts {p k : Nat} (hk : k ≤ 2 ^ 53) (hp : p = 0 ∨ 2 ^ 52 ≤ k) :
    magnitudeOfRank (p * 2 ^ 52 + k) = k * 2 ^ p := by
  rcases Nat.lt_or_eq_of_le hk with hk | rfl
  · have hplace : place (p * 2 ^ 52 + k) = p := by
      unfold place
      omega
    have hsignificand := place_mul_add_significand (p * 2 ^ 52 + k)
    rw [hplace] at hsignificand
    rw [magnitudeOfRank, hplace, Nat.add_left_cancel hsignificand]
  · have hplace : place (p * 2 ^ 52 + 2 ^ 53) = p + 1 := by
      unfold place
      omega
    have hsignificand := place_mul_add_significand (p * 2 ^ 52 + 2 ^ 53)
    rw [hplace] at hsignificand
    have hfirst : significand (p * 2 ^ 52 + 2 ^ 53) = 2 ^ 52 := by omega
    rw [magnitudeOfRank, hplace, hfirst, Nat.pow_succ' (n := p)]
    omega

/-- From one rank to the next the magnitude grows by the unit of the place. -/
theorem magnitudeOfRank_succ (rank : Nat) :
    magnitudeOfRank (rank + 1) = magnitudeOfRank rank + 2 ^ place rank := by
  have hlt : significand rank + 1 ≤ 2 ^ 53 := significand_lt rank
  have hplace : place rank = 0 ∨ 2 ^ 52 ≤ significand rank + 1 :=
    (place_eq_zero_or rank).imp_right fun h ↦ Nat.le_succ_of_le h
  have hparts := magnitudeOfRank_of_parts hlt hplace
  rwa [← Nat.add_assoc, place_mul_add_significand, Nat.succ_mul] at hparts

theorem strictMono_magnitudeOfRank : StrictMono magnitudeOfRank :=
  strictMono_nat_of_lt_succ fun rank ↦ by
    rw [magnitudeOfRank_succ]
    exact Nat.lt_add_of_pos_right (Nat.two_pow_pos _)

/-! ### Rounding and middles -/

theorem lt_of_placeOfUnits (s : Nat) {b : Nat} (hb : 0 < b) :
    s < 2 ^ 53 * (b * 2 ^ placeOfUnits (s / b)) := by
  have hlog : s / b < 2 ^ ((s / b).log2 + 1) := Nat.lt_log2_self
  have hpow : 2 ^ ((s / b).log2 + 1) ≤ 2 ^ (53 + placeOfUnits (s / b)) :=
    Nat.pow_le_pow_right (by decide) (by unfold placeOfUnits; omega)
  have hlt := (Nat.div_lt_iff_lt_mul hb).1 (Nat.lt_of_lt_of_le hlog hpow)
  calc s < 2 ^ (53 + placeOfUnits (s / b)) * b := hlt
    _ = 2 ^ 53 * (b * 2 ^ placeOfUnits (s / b)) := by rw [Nat.pow_add]; ring

theorem le_of_placeOfUnits {s b : Nat} (hb : 0 < b) (hp : placeOfUnits (s / b) ≠ 0) :
    2 ^ 52 * (b * 2 ^ placeOfUnits (s / b)) ≤ s := by
  have hne : s / b ≠ 0 := by
    intro h
    rw [h] at hp
    exact hp rfl
  have hlog : 2 ^ (s / b).log2 ≤ s / b := Nat.log2_self_le hne
  have hplace : (s / b).log2 = 52 + placeOfUnits (s / b) := by
    unfold placeOfUnits at hp ⊢
    omega
  rw [hplace] at hlog
  calc 2 ^ 52 * (b * 2 ^ placeOfUnits (s / b)) = 2 ^ (52 + placeOfUnits (s / b)) * b := by
        rw [Nat.pow_add]; ring
    _ ≤ s := (Nat.le_div_iff_mul_le hb).1 hlog

/-- A ratio is rounded to more than a rank if it is above the middle between the rank and the next
one, or in the middle with the rank odd. -/
theorem lt_rankOfRatio_iff {a b rank : Nat} (hb : 0 < b) (hrank : rank < infiniteRank) :
    rank < rankOfRatio a b ↔
      b * (magnitudeOfRank rank + magnitudeOfRank (rank + 1)) < 2 * (a * unitsPerOne) ∨
      b * (magnitudeOfRank rank + magnitudeOfRank (rank + 1)) = 2 * (a * unitsPerOne) ∧
        rank % 2 = 1 := by
  have hmin : rank < rankOfRatio a b ↔ rank < placeOfUnits (a * unitsPerOne / b) * 2 ^ 52 +
      nearestQuotient (a * unitsPerOne) (b * 2 ^ placeOfUnits (a * unitsPerOne / b)) := by
    simp only [rankOfRatio, Nat.lt_min, hrank, true_and]
  rw [hmin]
  generalize a * unitsPerOne = s
  have hupper := lt_of_placeOfUnits s hb
  have hlower := le_of_placeOfUnits (s := s) hb
  generalize placeOfUnits (s / b) = p at *
  have hunit : 0 < b * 2 ^ p := Nat.mul_pos hb (Nat.two_pow_pos p)
  have hmono := strictMono_magnitudeOfRank
  by_cases hbelow : p ≠ 0 ∧ rank < p * 2 ^ 52 + 2 ^ 52
  · -- A rank of a lower place: the ratio is at least the first magnitude of its own place.
    obtain ⟨hp, hrank⟩ := hbelow
    have hquotient : 2 ^ 52 ≤ nearestQuotient s (b * 2 ^ p) :=
      le_nearestQuotient hunit (hlower hp)
    have hfirst : magnitudeOfRank (p * 2 ^ 52 + 2 ^ 52) = 2 ^ 52 * 2 ^ p :=
      magnitudeOfRank_of_parts (by decide) (.inr (Nat.le_refl _))
    have hlt : magnitudeOfRank rank < 2 ^ 52 * 2 ^ p := hfirst ▸ hmono hrank
    have hle : magnitudeOfRank (rank + 1) ≤ 2 ^ 52 * 2 ^ p := hfirst ▸ hmono.monotone hrank
    have hmiddle : b * (magnitudeOfRank rank + magnitudeOfRank (rank + 1)) <
        b * (2 * (2 ^ 52 * 2 ^ p)) := Nat.mul_lt_mul_of_pos_left (by omega) hb
    have hs : b * (2 * (2 ^ 52 * 2 ^ p)) ≤ 2 * s := by
      calc b * (2 * (2 ^ 52 * 2 ^ p)) = 2 * (2 ^ 52 * (b * 2 ^ p)) := by ring
        _ ≤ 2 * s := Nat.mul_le_mul_left 2 (hlower hp)
    exact iff_of_true (by omega) (.inl (Nat.lt_of_lt_of_le hmiddle hs))
  by_cases habove : p * 2 ^ 52 + 2 ^ 53 ≤ rank
  · -- A rank of a higher place: the ratio is below the first magnitude of that place.
    have hquotient : nearestQuotient s (b * 2 ^ p) ≤ 2 ^ 53 :=
      nearestQuotient_le hunit (Nat.le_of_lt hupper)
    have hlast : magnitudeOfRank (p * 2 ^ 52 + 2 ^ 53) = 2 ^ 53 * 2 ^ p :=
      magnitudeOfRank_of_parts (Nat.le_refl _) (.inr (by decide))
    have hle : 2 ^ 53 * 2 ^ p ≤ magnitudeOfRank rank := hlast ▸ hmono.monotone habove
    have hlt : magnitudeOfRank rank < magnitudeOfRank (rank + 1) := hmono (Nat.lt_succ_self _)
    have hmiddle : b * (2 * (2 ^ 53 * 2 ^ p)) ≤
        b * (magnitudeOfRank rank + magnitudeOfRank (rank + 1)) :=
      Nat.mul_le_mul_left b (by omega)
    have hs : 2 * s < b * (2 * (2 ^ 53 * 2 ^ p)) := by
      calc 2 * s < 2 * (2 ^ 53 * (b * 2 ^ p)) := by omega
        _ = b * (2 * (2 ^ 53 * 2 ^ p)) := by ring
    exact iff_of_false (by omega) (by omega)
  · -- A rank of the place of the ratio.
    obtain ⟨k, rfl⟩ : ∃ k, rank = p * 2 ^ 52 + k := ⟨rank - p * 2 ^ 52, by omega⟩
    have hk : k < 2 ^ 53 := by omega
    have hplace : p = 0 ∨ 2 ^ 52 ≤ k := by omega
    rw [Nat.add_lt_add_iff_left, lt_nearestQuotient_iff hunit, Nat.add_assoc,
      magnitudeOfRank_of_parts (Nat.le_of_lt hk) hplace,
      magnitudeOfRank_of_parts hk (hplace.imp_right Nat.le_succ_of_le),
      show b * (k * 2 ^ p + (k + 1) * 2 ^ p) = (2 * k + 1) * (b * 2 ^ p) by ring,
      show (p * 2 ^ 52 + k) % 2 = k % 2 by omega]

end LexScript.Number

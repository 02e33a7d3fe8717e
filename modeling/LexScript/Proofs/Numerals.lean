import Mathlib.Data.List.TakeWhile
import LexScript.Number.Text

/-!
# Numerals read back

A finite number that is not negative is printed as a numeral, digits with at most one point
between them, and the numeral denotes that number again. The value of a numeral is a ratio, and
rounding depends on the ratio only; the magnitude of a rank, as a ratio, rounds to that rank. What
is left is that the digits chosen for a rank have been tested with the reader, and that dropping
zeros and writing without an exponent do not change the ratio.

## Main definitions

* `IsNumeral` : digits, with a point between two of them or without one.

## Main statements

* `Number.ofText_literalText` : a printed literal denotes the number it was printed for.
* `Number.isNumeral_literalText` : the text of a printed literal is a numeral.
-/

namespace LexScript

-- The powers in the definitions are those of the core library.
attribute [local instance (high)] instPowNat

/-! ### Rounding depends on the ratio -/

namespace Number

theorem nearestQuotient_mul_right (a b : Nat) {k : Nat} (hk : 0 < k) :
    nearestQuotient (a * k) (b * k) = nearestQuotient a b := by
  simp only [nearestQuotient, Nat.mul_div_mul_right _ _ hk, Nat.mul_mod_mul_right,
    ← Nat.mul_assoc, Nat.mul_lt_mul_right hk]

theorem rankOfRatio_mul_right (a b : Nat) {k : Nat} (hk : 0 < k) :
    rankOfRatio (a * k) (b * k) = rankOfRatio a b := by
  have hscaled : a * k * unitsPerOne = a * unitsPerOne * k := Nat.mul_right_comm ..
  simp only [rankOfRatio, hscaled, Nat.mul_div_mul_right _ _ hk, Nat.mul_right_comm b k,
    nearestQuotient_mul_right _ _ hk]

/-- Equal ratios have the same rank. -/
theorem rankOfRatio_congr {a b c d : Nat} (hb : 0 < b) (hd : 0 < d) (h : a * d = c * b) :
    rankOfRatio a b = rankOfRatio c d := by
  calc rankOfRatio a b = rankOfRatio (a * d) (b * d) := (rankOfRatio_mul_right a b hd).symm
    _ = rankOfRatio (c * b) (d * b) := by rw [h, Nat.mul_comm b d]
    _ = rankOfRatio c d := rankOfRatio_mul_right c d hb

theorem unitsPerOne_pos : 0 < unitsPerOne := Nat.two_pow_pos _

theorem nearestQuotient_mul_self (a : Nat) {b : Nat} (hb : 0 < b) :
    nearestQuotient (a * b) b = a := by
  simp [nearestQuotient, Nat.mul_div_cancel _ hb, hb]

/-- The place of a rank can be read off its magnitude. -/
theorem placeOfUnits_magnitudeOfRank (rank : Nat) :
    placeOfUnits (magnitudeOfRank rank) = place rank := by
  unfold placeOfUnits magnitudeOfRank significand place
  split
  · rename_i h
    have hlt : rank < 2 ^ 52 := Nat.lt_of_div_eq_zero (by decide) h
    rw [h, Nat.pow_zero, Nat.mul_one]
    rcases Nat.eq_zero_or_pos rank with rfl | hpos
    · rfl
    · have : rank.log2 < 52 := (Nat.log2_lt (by omega)).2 hlt
      omega
  · rename_i h
    generalize hp : rank / 2 ^ 52 - 1 = p
    have hlow : rank % 2 ^ 52 < 2 ^ 52 := Nat.mod_lt _ (by decide)
    have hne : (2 ^ 52 + rank % 2 ^ 52) * 2 ^ p ≠ 0 :=
      Nat.mul_ne_zero (by omega) (Nat.ne_of_gt (Nat.two_pow_pos p))
    have hlog : ((2 ^ 52 + rank % 2 ^ 52) * 2 ^ p).log2 = 52 + p := by
      rw [Nat.log2_eq_iff hne]
      constructor
      · rw [Nat.pow_add]
        exact Nat.mul_le_mul_right _ (Nat.le_add_right _ _)
      · rw [show 52 + p + 1 = 53 + p by omega, Nat.pow_add]
        exact Nat.mul_lt_mul_of_pos_right (by omega) (Nat.two_pow_pos p)
    rw [hlog]
    omega

/-- The magnitude of a rank rounds to the rank. -/
theorem rankOfRatio_magnitudeOfRank {rank : Nat} (h : rank < infiniteRank) :
    rankOfRatio (magnitudeOfRank rank) unitsPerOne = rank := by
  have hplace : placeOfUnits (magnitudeOfRank rank * unitsPerOne / unitsPerOne) = place rank := by
    rw [Nat.mul_div_cancel _ unitsPerOne_pos, placeOfUnits_magnitudeOfRank]
  have hnearest : nearestQuotient (magnitudeOfRank rank * unitsPerOne)
      (unitsPerOne * 2 ^ place rank) = significand rank := by
    rw [Nat.mul_comm unitsPerOne, nearestQuotient_mul_right _ _ unitsPerOne_pos, magnitudeOfRank,
      nearestQuotient_mul_self _ (Nat.two_pow_pos _)]
  have hrank : place rank * 2 ^ 52 + significand rank = rank := by
    unfold place significand
    split <;> omega
  simp only [rankOfRatio, hplace, hnearest, hrank]
  omega

end Number

/-! ### What the digits of a rank denote -/

namespace Decimal

theorem denominator_pos (d : Decimal) : 0 < d.denominator := Nat.pow_pos (by decide)

/-- Decimals of the same value have the same rank. -/
theorem rank_congr {d e : Decimal}
    (h : d.numerator * e.denominator = e.numerator * d.denominator) : d.rank = e.rank :=
  Number.rankOfRatio_congr d.denominator_pos e.denominator_pos h

/-- Trailing zeros may stand among the digits or in the exponent. -/
theorem rank_mul_pow (digits k : Nat) (exponent : Int) :
    rank ⟨digits * 10 ^ k, exponent⟩ = rank ⟨digits, exponent + k⟩ := by
  apply rank_congr
  simp only [numerator, denominator, Nat.mul_assoc, ← Nat.pow_add]
  congr 2
  omega

theorem exists_dropZeros (fuel : Nat) (d : Decimal) :
    ∃ k : Nat, d.digits = (dropZeros fuel d).digits * 10 ^ k ∧
      (dropZeros fuel d).exponent = d.exponent + k := by
  induction fuel generalizing d with
  | zero => exact ⟨0, by simp [dropZeros]⟩
  | succ fuel ih =>
    unfold dropZeros
    split
    · rename_i h
      obtain ⟨k, hdigits, hexponent⟩ := ih ⟨d.digits / 10, d.exponent + 1⟩
      refine ⟨k + 1, ?_, by rw [hexponent]; dsimp only; omega⟩
      rw [Nat.pow_succ, ← Nat.mul_assoc, ← hdigits, Nat.div_mul_cancel (Nat.dvd_of_mod_eq_zero h.2)]
    · exact ⟨0, by simp⟩

theorem rank_dropZeros (fuel : Nat) (d : Decimal) : (dropZeros fuel d).rank = d.rank := by
  obtain ⟨k, hdigits, hexponent⟩ := exists_dropZeros fuel d
  calc (dropZeros fuel d).rank = rank ⟨(dropZeros fuel d).digits, d.exponent + k⟩ := by
        rw [← hexponent]
    _ = rank ⟨d.digits, d.exponent⟩ := by rw [← rank_mul_pow, ← hdigits]

/-- A neighbour is chosen only if it reads back, and if both do, only if it is no farther away. -/
theorem neighbour?_cases {tie : Tie} {middle : Ordering} {lower upper d : Decimal}
    {lowerReads upperReads : Bool}
    (h : neighbour? tie middle lower upper lowerReads upperReads = some d) :
    lowerReads = true ∧ d = lower ∧ (upperReads = true → middle ≠ .gt) ∨
    upperReads = true ∧ d = upper ∧ (lowerReads = true → middle ≠ .lt) := by
  unfold neighbour? at h
  split at h
  · cases h
  · exact .inl ⟨rfl, (Option.some.inj h).symm, nofun⟩
  · exact .inr ⟨rfl, (Option.some.inj h).symm, nofun⟩
  · repeat' split at h
    all_goals
      have := (Option.some.inj h).symm
      simp [this]

/-- A point of a grid is chosen only if it reads as the rank. -/
theorem rank_of_onGrid? {tie : Tie} {rank : Nat} {grid : Int} {d : Decimal}
    (h : onGrid? tie rank grid = some d) : d.rank = rank := by
  obtain ⟨hreads, rfl, -⟩ | ⟨hreads, rfl, -⟩ := neighbour?_cases h
  · exact of_decide_eq_true hreads
  · exact of_decide_eq_true hreads

theorem rank_of_search {tie : Tie} {rank tries : Nat} {grid : Int} {d : Decimal}
    (h : search tie rank tries grid = some d) : d.rank = rank := by
  induction tries generalizing grid with
  | zero => cases h
  | succ tries ih =>
    rw [search, Option.orElse_eq_orElse, Option.orElse_eq_or, Option.or_eq_some_iff] at h
    rcases h with h | ⟨-, h⟩
    · exact rank_of_onGrid? h
    · exact ih h

theorem rank_exact {rank : Nat} (h : rank < Number.infiniteRank) : (exact rank).rank = rank := by
  refine (Number.rankOfRatio_congr (denominator_pos _) Number.unitsPerOne_pos ?_).trans
    (Number.rankOfRatio_magnitudeOfRank h)
  have hten : 5 ^ Number.places * Number.unitsPerOne = 10 ^ Number.places := by
    rw [Number.unitsPerOne, ← Nat.mul_pow]
  simp [exact, numerator, denominator, Nat.mul_assoc, hten]

/-- The decimal that shows a rank reads as the rank. -/
theorem rank_shortest (tie : Tie) {rank : Nat} (h : rank < Number.infiniteRank) :
    (shortest tie rank).rank = rank := by
  unfold shortest
  split
  · rename_i hzero
    refine (Number.rankOfRatio_congr (denominator_pos _) Number.unitsPerOne_pos ?_).trans
      (Number.rankOfRatio_magnitudeOfRank h)
    simp [hzero, numerator, Number.magnitudeOfRank, Number.significand]
  · rw [rank_dropZeros]
    cases hfound : search tie rank gridsTried (coarsestGrid (Number.magnitudeOfRank rank)) with
    | none => exact rank_exact h
    | some d => exact rank_of_search hfound

/-! ### Writing without an exponent -/

theorem ofDigits_eq (cs : List Char) : ofDigits cs = Nat.ofDigitChars 10 cs 0 :=
  Nat.ofDigitChars_eq_foldl.symm

@[simp] theorem ofDigits_digitsOf (n : Nat) : ofDigits (digitsOf n) = n := by
  rw [ofDigits_eq]
  exact Nat.ofDigitChars_ten_toDigits

theorem isDigit_of_mem_digitsOf {n : Nat} {c : Char} (h : c ∈ digitsOf n) : c.isDigit = true :=
  Nat.isDigit_of_mem_toDigits (by decide) (by decide) h

theorem ofDigits_append_zeros (cs : List Char) (n : Nat) :
    ofDigits (cs ++ List.replicate n '0') = ofDigits cs * 10 ^ n := by
  rw [ofDigits_eq, Nat.ofDigitChars_append, Nat.ofDigitChars_replicate_zero, ofDigits_eq,
    Nat.mul_comm]

theorem ofDigits_zeros_append (cs : List Char) (n : Nat) :
    ofDigits (List.replicate n '0' ++ cs) = ofDigits cs := by
  rw [ofDigits_eq, Nat.ofDigitChars_append, Nat.ofDigitChars_replicate_zero, ofDigits_eq,
    Nat.mul_zero]

theorem ne_point_of_isDigit {c : Char} (h : c.isDigit = true) : (c != '.') = true := by
  rw [bne_iff_ne]
  rintro rfl
  cases h

/-- A numeral without a point. -/
theorem ofText_digits {whole : List Char} (h : ∀ c ∈ whole, c.isDigit = true) :
    ofText whole = ⟨ofDigits whole, 0⟩ := by
  have hpoint : ∀ c ∈ whole, (c != '.') = true := fun c hc ↦ ne_point_of_isDigit (h c hc)
  simp [ofText, List.takeWhile_eq_self_iff.2 hpoint, List.dropWhile_eq_nil_iff.2 hpoint]

/-- A numeral with a point. -/
theorem ofText_append {whole : List Char} (h : ∀ c ∈ whole, c.isDigit = true)
    (places : List Char) :
    ofText (whole ++ '.' :: places) = ⟨ofDigits (whole ++ places), -(places.length : Int)⟩ := by
  have hpoint : ∀ c ∈ whole, (c != '.') = true := fun c hc ↦ ne_point_of_isDigit (h c hc)
  simp [ofText, List.takeWhile_append_of_pos hpoint, List.dropWhile_append_of_pos hpoint]

end Decimal

/-! ### The shape of numerals -/

/-- Digits, with a point between two of them or without one. -/
inductive IsNumeral : List Char → Prop where
  | whole {cs : List Char} (hne : cs ≠ []) (h : ∀ c ∈ cs, c.isDigit = true) : IsNumeral cs
  | point {cs ds : List Char} (hne : cs ≠ []) (hne' : ds ≠ []) (h : ∀ c ∈ cs, c.isDigit = true)
      (h' : ∀ c ∈ ds, c.isDigit = true) : IsNumeral (cs ++ '.' :: ds)

namespace Decimal

theorem digitsOf_ne_nil (n : Nat) : digitsOf n ≠ [] := Nat.toDigits_ne_nil

theorem isNumeral_digitsOf (n : Nat) : IsNumeral (digitsOf n) :=
  .whole (digitsOf_ne_nil n) fun _ hc ↦ isDigit_of_mem_digitsOf hc

/-- Written without an exponent, a decimal is a numeral, and the numeral has its value. -/
theorem positional_spec (d : Decimal) :
    IsNumeral d.positional ∧
      ofText d.positional = ⟨d.digits * 10 ^ d.exponent.toNat, min d.exponent 0⟩ := by
  obtain ⟨digits, exponent⟩ := d
  have hdigits : ∀ c ∈ digitsOf digits, c.isDigit = true := fun _ hc ↦ isDigit_of_mem_digitsOf hc
  have hpos : 0 < (digitsOf digits).length := List.length_pos_iff.2 (digitsOf_ne_nil digits)
  rcases exponent with zeros | n
  · have hall : ∀ c ∈ digitsOf digits ++ List.replicate zeros '0', c.isDigit = true := by
      intro c hc
      rcases List.mem_append.1 hc with hc | hc
      · exact hdigits c hc
      · rw [List.eq_of_mem_replicate hc]
        rfl
    refine ⟨.whole (by simp [positional, digitsOf_ne_nil]) hall, ?_⟩
    simp only [positional]
    rw [ofText_digits hall, ofDigits_append_zeros, ofDigits_digitsOf, Decimal.mk.injEq]
    exact ⟨rfl, (Int.min_eq_right (Int.natCast_nonneg zeros)).symm⟩
  · simp only [positional, withPoint]
    split
    · rename_i hlt
      have htake : ∀ c ∈ (digitsOf digits).take ((digitsOf digits).length - (n + 1)),
          c.isDigit = true := fun c hc ↦ hdigits c (List.mem_of_mem_take hc)
      have hdrop : ∀ c ∈ (digitsOf digits).drop ((digitsOf digits).length - (n + 1)),
          c.isDigit = true := fun c hc ↦ hdigits c (List.mem_of_mem_drop hc)
      refine ⟨.point ?_ ?_ htake hdrop, ?_⟩
      · rw [← List.length_pos_iff, List.length_take]
        omega
      · rw [← List.length_pos_iff, List.length_drop]
        omega
      · rw [ofText_append htake, List.take_append_drop, ofDigits_digitsOf, List.length_drop,
          Decimal.mk.injEq]
        exact ⟨by simp, by omega⟩
    · rename_i hle
      have hplaces : ∀ c ∈ List.replicate (n + 1 - (digitsOf digits).length) '0' ++
          digitsOf digits, c.isDigit = true := by
        intro c hc
        rcases List.mem_append.1 hc with hc | hc
        · rw [List.eq_of_mem_replicate hc]
          rfl
        · exact hdigits c hc
      have hzero : ∀ c ∈ ['0'], c.isDigit = true := by simp
      refine ⟨@IsNumeral.point ['0'] _ (by simp) (by simp [digitsOf_ne_nil]) hzero hplaces, ?_⟩
      have htext := ofText_append hzero
        (List.replicate (n + 1 - (digitsOf digits).length) '0' ++ digitsOf digits)
      simp only [List.singleton_append] at htext
      rw [htext, ← List.cons_append, ← List.replicate_succ, ofDigits_zeros_append,
        ofDigits_digitsOf, List.length_append, List.length_replicate, Decimal.mk.injEq]
      exact ⟨by simp, by omega⟩

theorem rank_ofText_positional (d : Decimal) : (ofText d.positional).rank = d.rank := by
  have hexponent : min d.exponent 0 + (d.exponent.toNat : Int) = d.exponent := by omega
  rw [(positional_spec d).2, rank_mul_pow, hexponent]

end Decimal

/-! ### Literals -/

namespace Number

theorem infiniteRank_lt : infiniteRank < 2 ^ (63 : Nat) := by decide

theorem toNat_ofRank {rank : Nat} (h : rank ≤ infiniteRank) :
    (ofRank false rank).bits.toNat = rank := by
  have := infiniteRank_lt
  simp only [ofRank, cond_false, UInt64.toNat_ofNat']
  omega

@[simp] theorem rank_ofRank {rank : Nat} (h : rank ≤ infiniteRank) :
    (ofRank false rank).rank = rank := by
  have := infiniteRank_lt
  rw [Number.rank, toNat_ofRank h]
  omega

/-- A number is told by its sign and its rank. -/
theorem ofRank_isNegative_rank (x : Number) : ofRank x.isNegative x.rank = x := by
  have hlt : x.bits.toNat < 2 ^ 64 := x.bits.toNat_lt
  unfold ofRank rank isNegative
  by_cases h : 2 ^ 63 ≤ x.bits.toNat
  · rw [decide_eq_true h, cond_true, show 2 ^ 63 + x.bits.toNat % 2 ^ 63 = x.bits.toNat by omega,
      UInt64.ofNat_toNat]
  · rw [decide_eq_false h, cond_false, Nat.mod_eq_of_lt (Nat.lt_of_not_le h), UInt64.ofNat_toNat]

theorem rank_le_infiniteRank (d : Decimal) : d.rank ≤ infiniteRank := Nat.min_le_left ..

theorem isNegative_ofText (text : String) : (ofText text).isNegative = false := by
  have := infiniteRank_lt
  have hle := rank_le_infiniteRank (Decimal.ofText text.toList)
  rw [ofText, isNegative, toNat_ofRank hle, decide_eq_false_iff_not]
  omega

theorem isNaN_ofText (text : String) : (ofText text).isNaN = false := by
  have hle := rank_le_infiniteRank (Decimal.ofText text.toList)
  rw [ofText, isNaN, rank_ofRank hle, decide_eq_false_iff_not]
  omega

/-- A number is finite, infinite or not a number. -/
theorem isFinite_eq {x : Number} (h : x.isNaN = false) : x.isFinite = !x.isInfinite := by
  have hle : x.rank ≤ infiniteRank := Nat.le_of_not_lt (of_decide_eq_false h)
  rw [isFinite, isInfinite, ← decide_not, decide_eq_decide]
  exact ⟨Nat.ne_of_lt, Nat.lt_of_le_of_ne hle⟩

/-- The text of a finite number in a printed program: a numeral that reads as its rank. -/
theorem literalText_spec {x : Number} (hn : x.isNegative = false) (hf : x.isFinite = true) :
    ∃ cs, x.literalText = String.ofList cs ∧ IsNumeral cs ∧ (Decimal.ofText cs).rank = x.rank := by
  have hrank : x.rank < infiniteRank := of_decide_eq_true hf
  have hsign : x.signText = "" := by simp [signText, hn]
  unfold literalText
  split
  · rename_i h
    refine ⟨Decimal.digitsOf x.wholePart, by simp [wholeText, hsign],
      Decimal.isNumeral_digitsOf _, ?_⟩
    rw [Decimal.ofText_digits fun _ hc ↦ Decimal.isDigit_of_mem_digitsOf hc,
      Decimal.ofDigits_digitsOf]
    refine (rankOfRatio_congr (Decimal.denominator_pos _) unitsPerOne_pos ?_).trans
      (rankOfRatio_magnitudeOfRank hrank)
    have hwhole : x.magnitude % unitsPerOne = 0 := by
      simp only [isShortWhole, isWhole, Bool.and_eq_true, beq_iff_eq] at h
      exact h.1.2
    simpa [Decimal.numerator, Decimal.denominator, wholePart, magnitude] using
      Nat.div_mul_cancel (Nat.dvd_of_mod_eq_zero hwhole)
  · have hnumeral := (Decimal.positional_spec (Decimal.shortest .up x.rank)).1
    have hnan : x.isNaN = false := decide_eq_false (by omega)
    have hinf : x.isInfinite = false := decide_eq_false (by omega)
    refine ⟨_, by simp [general, hnan, hinf, hsign], hnumeral, ?_⟩
    rw [Decimal.rank_ofText_positional, Decimal.rank_shortest _ hrank]

/-- A printed literal denotes the number it was printed for. -/
theorem ofText_literalText {x : Number} (hn : x.isNegative = false) (hf : x.isFinite = true) :
    ofText x.literalText = x := by
  obtain ⟨cs, htext, -, hread⟩ := literalText_spec hn hf
  rw [htext, ofText, String.toList_ofList, hread, ← hn, ofRank_isNegative_rank]

/-- The text of a printed literal is a numeral. -/
theorem isNumeral_literalText {x : Number} (hn : x.isNegative = false) (hf : x.isFinite = true) :
    IsNumeral x.literalText.toList := by
  obtain ⟨cs, htext, hnumeral, -⟩ := literalText_spec hn hf
  rwa [htext, String.toList_ofList]

/-- An infinite literal is printed as a name. -/
theorem literalText_infinite {x : Number} (hn : x.isNegative = false)
    (hi : x.isInfinite = true) : x.literalText = "inf" := by
  have hrank : x.rank = infiniteRank := of_decide_eq_true hi
  have hnan : x.isNaN = false := decide_eq_false (by omega)
  have hfinite : x.isFinite = false := decide_eq_false (by omega)
  simp [literalText, isShortWhole, isWhole, hfinite, general, hnan, hi, signText, hn]

/-- A number that is one equals itself. -/
theorem equals_self {x : Number} (h : x.isNaN = false) : x.equals x = true := by
  simp [equals, h]

end Number

end LexScript

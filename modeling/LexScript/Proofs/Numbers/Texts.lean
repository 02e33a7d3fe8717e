import LexScript.Proofs.Numbers.Shortest

/-!
# Texts of finite numbers

The texts of a finite number are one text. A whole number below `10 ^ 15` is written by its own
digits: it reads as itself, so a shortest decimal is not longer, and a shorter one on a finer grid
would be smaller by more than half a unit, which is at most one here. The general rendering of such
a number is therefore the one by its digits, and the three texts differ from it only in the sign of
a zero and in one place that a list of tokens adds. Each text reads back, so different numbers have
different texts.

## Main definitions

* `Number.value` : the exact value of a finite number.
* `Number.IsShortInteger` : the numbers that are written by their digits.
* `Number.ofSignedText` : the number that a text with or without a sign denotes.

## Main statements

* `Number.texts_agree` : the texts of a finite number are its general rendering and read back.
-/

namespace LexScript

-- The powers of natural numbers are those of the core library.
attribute [local instance (high)] instPowNat

namespace Decimal

open Number

/-- The text of a decimal without an exponent has the value of the decimal. -/
theorem value_ofText_positional (d : Decimal) : (ofText d.positional).value = d.value := by
  have hexponent : min d.exponent 0 + (d.exponent.toNat : Int) = d.exponent := by omega
  rw [(positional_spec d).2, value_mul_pow, hexponent]

theorem digitsOf_mul_pow {n : Nat} (hn : n ≠ 0) (k : Nat) :
    digitsOf (n * 10 ^ k) = digitsOf n ++ List.replicate k '0' := by
  induction k with
  | zero => simp
  | succ k ih =>
    have hpos : 0 < n * 10 ^ k := Nat.mul_pos (Nat.pos_of_ne_zero hn) (Nat.pow_pos (by decide))
    have hlast : digitsOf (n * 10 ^ k) ++ digitsOf 0 = digitsOf (10 * (n * 10 ^ k) + 0) :=
      Nat.toDigits_append_toDigits (by decide) hpos (by decide)
    rw [Nat.pow_succ', Nat.mul_left_comm, ← Nat.add_zero (10 * _), ← hlast, ih, List.append_assoc,
      List.replicate_succ']
    rfl

/-! ### Whole numbers -/

/-- Below `10 ^ 15` the ranks are at most one apart. -/
theorem unitOfRank_le_one {rank : Nat} (h : valueOfRank rank < 10 ^ 15) : unitOfRank rank ≤ 1 := by
  rcases place_eq_zero_or_le rank with hplace | hlarge
  · rw [unitOfRank_of_place_eq_zero hplace]
    exact inv_le_one_of_one_le₀ (by exact_mod_cast unitsPerOne_pos)
  · linarith

section Whole

variable {d : Decimal} {rank n : Nat} (hrank : rank < infiniteRank) (hd : d.IsShortest rank)
  (hn : valueOfRank rank = n)

include hd in
/-- A shortest decimal has no trailing zero. -/
theorem IsShortest.digits_mod_ne_zero (hne : d.digits ≠ 0) : d.digits % 10 ≠ 0 := by
  intro hmod
  have hshorter : d.length ≤ (⟨d.digits / 10, d.exponent + 1⟩ : Decimal).length :=
    hd.length_le _ ((rank_dropZero hmod d.exponent).trans hd.reads)
  have hlong : 1 < d.length := by
    refine Nat.lt_of_not_le fun h ↦ ?_
    have := (length_le_iff Nat.one_pos).1 h
    omega
  have hdigits : d.digits < 10 ^ (d.length - 1 + 1) := by
    rw [Nat.sub_add_cancel d.length_pos]
    exact (length_le_iff d.length_pos).1 (Nat.le_refl _)
  have hless : (⟨d.digits / 10, d.exponent + 1⟩ : Decimal).length ≤ d.length - 1 := by
    refine (length_le_iff (by omega)).2 (Nat.div_lt_of_lt_mul ?_)
    rwa [Nat.pow_succ'] at hdigits
  omega

include hrank hd hn in
/-- A shortest decimal of a whole number below `10 ^ 15` has its value. -/
theorem IsShortest.value_eq (hlt : n < 10 ^ 15) : d.value = n := by
  have hunit : unitOfRank rank ≤ 1 := unitOfRank_le_one (by rw [hn]; exact_mod_cast hlt)
  have hnear := abs_le.1 (abs_value_sub_le hrank hd.reads)
  rw [hn] at hnear
  -- The digits of the number itself are a competitor.
  obtain ⟨own, hexponent, hown⟩ : ∃ own : Decimal, own.exponent = 0 ∧ own.value = n :=
    ⟨⟨n, 0⟩, rfl, by simp [value]⟩
  have hreads : own.rank = rank := rank_eq_of_value_eq_valueOfRank hrank (hown.trans hn.symm)
  rcases (hd.length_le own hreads).lt_or_eq with hshorter | hlength
  · have hpos := d.length_pos
    rcases lt_or_ge d.exponent 0 with hfiner | hinteger
    · -- With fewer digits and a fraction the decimal would be a tenth of the number at most.
      exfalso
      have hne : own.digits ≠ 0 := by
        intro hzero
        have := length_eq_one (d := own) (by omega)
        omega
      have hlow : (10 : ℚ) ^ ((own.length : Int) - 2 + 1) ≤ n := by
        rw [show (own.length : Int) - 2 + 1 = own.exponent + own.length - 1 by omega, ← hown]
        exact le_value hne
      have hhigh : d.value < 10 ^ ((own.length : Int) - 2) :=
        d.value_lt.trans_le (ten_zpow_le (by omega))
      have hone : (1 : ℚ) ≤ 10 ^ ((own.length : Int) - 2) :=
        one_le_zpow₀ (by norm_num) (by omega)
      rw [zpow_add_one₀ (by norm_num)] at hlow
      linarith
    · obtain ⟨k, hk⟩ : ∃ k : Nat, d.value = k := by
        obtain ⟨k, hk⟩ := d.exists_steps hinteger
        exact ⟨k, by rw [← hk]; simp [value]⟩
      have hle : k < n + 1 := by exact_mod_cast (show (k : ℚ) < n + 1 by linarith)
      have hge : n < k + 1 := by exact_mod_cast (show (n : ℚ) < k + 1 by linarith)
      rw [hk, show k = n by omega]
  · have hdistance := hd.distance_le own hreads hlength.symm
    rw [hown, hn, sub_self, abs_zero, abs_nonpos_iff, sub_eq_zero] at hdistance
    exact hdistance

include hrank hd hn in
/-- A shortest decimal of a whole number below `10 ^ 15` is written by the digits of the number. -/
theorem IsShortest.positional_eq (hne : n ≠ 0) (hlt : n < 10 ^ 15) :
    d.positional = digitsOf n := by
  have hvalue := hd.value_eq hrank hn hlt
  obtain ⟨digits, exponent⟩ := d
  rcases exponent with zeros | places
  · have hdigits : digits * 10 ^ zeros = n := by
      have : ((digits * 10 ^ zeros : Nat) : ℚ) = n := by simpa [value] using hvalue
      exact_mod_cast this
    have hpos : digits ≠ 0 := by
      rintro rfl
      exact hne (by rw [← hdigits, Nat.zero_mul])
    rw [← hdigits, digitsOf_mul_pow hpos]
    rfl
  · -- With places the last of them would be zero.
    exfalso
    have hdigits : digits = n * 10 ^ places * 10 := by
      have hpow : (10 : ℚ) ^ (places + 1) ≠ 0 := by positivity
      have : (digits : ℚ) = n * 10 ^ (places + 1) := by
        rwa [value, zpow_negSucc, ← div_eq_mul_inv, div_eq_iff hpow] at hvalue
      rw [Nat.mul_assoc, ← Nat.pow_succ]
      exact_mod_cast this
    have hpos : digits ≠ 0 := by
      have := Nat.pow_pos (n := places) (show 0 < 10 by decide)
      have := Nat.mul_pos (Nat.pos_of_ne_zero hne) this
      omega
    refine hd.digits_mod_ne_zero hpos ?_
    rw [hdigits]
    exact Nat.mul_mod_left _ _

end Whole

end Decimal

namespace Number

/-- The exact value of a finite number. -/
def value (x : Number) : ℚ := cond x.isNegative (-valueOfRank x.rank) (valueOfRank x.rank)

/-- The value is an integer, and below `10 ^ 15` without its sign. -/
def IsShortInteger (x : Number) : Prop := (∃ n : Int, x.value = n) ∧ |x.value| < 10 ^ 15

/-- The number that a text with or without a sign denotes. -/
def ofSignedText (text : String) : Number :=
  match text.toList with
  | '-' :: digits => ofRank true (Decimal.ofText digits).rank
  | digits => ofRank false (Decimal.ofText digits).rank

/-! ### Signs -/

theorem abs_value (x : Number) : |x.value| = valueOfRank x.rank := by
  have hnonneg := valueOfRank_nonneg x.rank
  unfold value
  cases x.isNegative
  · exact abs_of_nonneg hnonneg
  · rw [cond_true, abs_neg, abs_of_nonneg hnonneg]

theorem eq_negativeZero_iff {x : Number} :
    x = ofRank true 0 ↔ x.isNegative = true ∧ x.rank = 0 := by
  constructor
  · rintro rfl
    exact ⟨by decide, by decide⟩
  · rintro ⟨hsign, hrank⟩
    rw [← ofRank_isNegative_rank x, hsign, hrank]

theorem minus_not_mem {cs : List Char} (h : IsNumeral cs) : '-' ∉ cs := by
  have hminus : ∀ {ds : List Char}, (∀ d ∈ ds, d.isDigit = true) → '-' ∉ ds :=
    fun hds hmem ↦ absurd (hds _ hmem) (by decide)
  cases h with
  | whole _ h => exact hminus h
  | point _ _ h h' => simpa using ⟨hminus h, hminus h'⟩

/-- A numeral behind a sign that is written for negative numbers only. -/
theorem ofSignedText_numeral (negative : Bool) {cs : List Char} (h : IsNumeral cs) :
    ofSignedText ((if negative then "-" else "") ++ String.ofList cs) =
      ofRank negative (Decimal.ofText cs).rank := by
  cases negative with
  | true => simp [ofSignedText]
  | false =>
    simp only [ofSignedText, Bool.false_eq_true, if_false, String.empty_append,
      String.toList_ofList]
    split
    · exact absurd List.mem_cons_self (minus_not_mem h)
    · rfl

/-! ### The place in a list of tokens -/

theorem tokenText_eq (x : Number) :
    x.tokenText = if x.isShortWhole = true then x.literalText ++ ".0" else x.literalText := by
  unfold tokenText literalText
  split <;> rfl

/-- A zero behind the point does not change the value of digits. -/
theorem rank_ofText_point {cs : List Char} (h : ∀ c ∈ cs, c.isDigit = true) :
    (Decimal.ofText (cs ++ ['.', '0'])).rank = (Decimal.ofText cs).rank := by
  have hzeros := Decimal.ofDigits_append_zeros cs 1
  rw [List.replicate_one] at hzeros
  rw [Decimal.ofText_append h, Decimal.ofText_digits h, hzeros]
  exact Decimal.rank_mul_pow _ 1 _

/-- The place that a list of tokens adds does not change the number. -/
theorem ofSignedText_tokenText (x : Number) :
    ofSignedText x.tokenText = ofSignedText x.literalText := by
  rw [tokenText_eq]
  split
  · rename_i h
    have hdigits : ∀ c ∈ Decimal.digitsOf x.wholePart, c.isDigit = true :=
      fun _ hc ↦ Decimal.isDigit_of_mem_digitsOf hc
    have hpoint : IsNumeral (Decimal.digitsOf x.wholePart ++ ['.', '0']) :=
      .point (Decimal.digitsOf_ne_nil _) (by simp) hdigits (by simp)
    have hliteral : x.literalText =
        (if !decide (x.wholePart = 0) && x.isNegative then "-" else "") ++
          String.ofList (Decimal.digitsOf x.wholePart) := by
      rw [literalText, if_pos h, wholeText, signText]
      by_cases hzero : x.wholePart = 0 <;> simp [hzero]
    have hplace : x.literalText ++ ".0" =
        (if !decide (x.wholePart = 0) && x.isNegative then "-" else "") ++
          String.ofList (Decimal.digitsOf x.wholePart ++ ['.', '0']) := by
      rw [hliteral, String.append_assoc, String.ofList_append]
    rw [hplace, hliteral, ofSignedText_numeral _ hpoint, rank_ofText_point hdigits,
      ofSignedText_numeral _ (Decimal.isNumeral_digitsOf _)]
  · rfl

/-! ### Short whole numbers -/

theorem valueOfRank_eq_natCast_iff {rank n : Nat} :
    valueOfRank rank = n ↔ magnitudeOfRank rank = n * unitsPerOne := by
  rw [valueOfRank, div_eq_iff cast_unitsPerOne_pos.ne']
  exact_mod_cast Iff.rfl

section Finite

variable {x : Number} (hx : x.isFinite = true)
include hx

theorem isShortWhole_iff :
    x.isShortWhole = true ↔ ∃ n < 10 ^ 15, valueOfRank x.rank = (n : Nat) := by
  have hone := unitsPerOne_pos
  simp only [isShortWhole, isWhole, hx, Bool.true_and, Bool.and_eq_true, beq_iff_eq,
    decide_eq_true_eq]
  constructor
  · rintro ⟨hmod, hlt⟩
    have hwhole := (Nat.div_mul_cancel (Nat.dvd_of_mod_eq_zero hmod)).symm
    rw [← Nat.div_lt_iff_lt_mul hone] at hlt
    exact ⟨_, hlt, valueOfRank_eq_natCast_iff.2 hwhole⟩
  · rintro ⟨n, hlt, hn⟩
    have hmagnitude : x.magnitude = n * unitsPerOne := valueOfRank_eq_natCast_iff.1 hn
    rw [hmagnitude]
    exact ⟨Nat.mul_mod_left _ _, Nat.mul_lt_mul_of_pos_right hlt hone⟩

/-- The numbers that are written by their digits are the integers below `10 ^ 15`. -/
theorem isShortWhole_iff_isShortInteger : x.isShortWhole = true ↔ x.IsShortInteger := by
  rw [isShortWhole_iff hx, IsShortInteger, abs_value]
  constructor
  · rintro ⟨n, hlt, hn⟩
    refine ⟨?_, by rw [hn]; exact_mod_cast hlt⟩
    unfold value
    rw [hn]
    cases x.isNegative
    · exact ⟨n, by simp⟩
    · exact ⟨-n, by simp⟩
  · rintro ⟨⟨n, hn⟩, hlt⟩
    have habs : valueOfRank x.rank = (n.natAbs : Nat) := by
      rw [← abs_value, hn, Nat.cast_natAbs, Int.cast_abs]
    rw [habs] at hlt
    exact ⟨n.natAbs, by exact_mod_cast hlt, habs⟩

theorem valueOfRank_eq_wholePart (h : x.isShortWhole = true) :
    valueOfRank x.rank = x.wholePart ∧ x.wholePart < 10 ^ 15 := by
  obtain ⟨n, hlt, hn⟩ := (isShortWhole_iff hx).1 h
  have hwhole : x.wholePart = n := by
    rw [wholePart, magnitude, valueOfRank_eq_natCast_iff.1 hn, Nat.mul_div_cancel _ unitsPerOne_pos]
  rw [hwhole]
  exact ⟨hn, hlt⟩

theorem wholePart_eq_zero_iff (h : x.isShortWhole = true) : x.wholePart = 0 ↔ x.rank = 0 := by
  obtain ⟨hvalue, -⟩ := valueOfRank_eq_wholePart hx h
  rw [← Nat.cast_eq_zero (R := ℚ), ← hvalue, ← valueOfRank_zero,
    strictMono_valueOfRank.injective.eq_iff]

/-- The decimal that shows a short whole number is written by the digits of the number. -/
theorem positional_of_isShortWhole (h : x.isShortWhole = true) :
    (Decimal.shortest .up x.rank).positional = Decimal.digitsOf x.wholePart := by
  have hrank : x.rank < infiniteRank := of_decide_eq_true hx
  obtain ⟨hvalue, hlt⟩ := valueOfRank_eq_wholePart hx h
  by_cases hzero : x.wholePart = 0
  · rw [hzero, (wholePart_eq_zero_iff hx h).1 hzero]
    rfl
  · exact (Decimal.isShortest_shortest .up hrank).positional_eq hrank hvalue hzero hlt

/-! ### The general rendering -/

theorem general_eq :
    x.general = x.signText ++ String.ofList (Decimal.shortest .up x.rank).positional := by
  have hrank : x.rank < infiniteRank := of_decide_eq_true hx
  have hnan : x.isNaN = false := decide_eq_false (by omega)
  have hinf : x.isInfinite = false := decide_eq_false (by omega)
  simp [general, hnan, hinf]

/-- A short whole number is written by its digits as in the general rendering, but for the sign of a
negative zero. -/
theorem wholeText_eq (h : x.isShortWhole = true) :
    x.wholeText = if x = ofRank true 0 then "0" else x.general := by
  have hzero := wholePart_eq_zero_iff hx h
  rw [general_eq hx, positional_of_isShortWhole hx h, wholeText]
  by_cases hnegative : x = ofRank true 0
  · have hwhole := hzero.2 (eq_negativeZero_iff.1 hnegative).2
    rw [if_pos hnegative, if_pos hwhole, hwhole]
    rfl
  · rw [if_neg hnegative]
    by_cases hwhole : x.wholePart = 0
    · have hsign : x.isNegative = false := by
        rw [Bool.eq_false_iff]
        exact fun hsign ↦ hnegative (eq_negativeZero_iff.2 ⟨hsign, hzero.1 hwhole⟩)
      rw [if_pos hwhole, signText, hsign]
      rfl
    · rw [if_neg hwhole]

theorem literalText_eq : x.literalText = if x = ofRank true 0 then "0" else x.general := by
  by_cases h : x.isShortWhole = true
  · rw [literalText, if_pos h, wholeText_eq hx h]
  · have hnegative : x ≠ ofRank true 0 := fun hnegative ↦
      h ((isShortWhole_iff hx).2 ⟨0, by decide, by simp [(eq_negativeZero_iff.1 hnegative).2]⟩)
    rw [literalText, if_neg h, if_neg hnegative]

theorem valueText_eq : x.valueText = x.general := by
  have hrank : x.rank < infiniteRank := of_decide_eq_true hx
  have hnan : x.isNaN = false := decide_eq_false (by omega)
  have hinf : x.isInfinite = false := decide_eq_false (by omega)
  have hnegative : (x.isZero && x.isNegative) = true ↔ x = ofRank true 0 := by
    rw [eq_negativeZero_iff, Bool.and_eq_true, isZero, decide_eq_true_iff, and_comm]
  simp only [valueText, hnan, hinf, hnegative, Bool.false_eq_true, if_false]
  by_cases h : x.isShortWhole = true
  · rw [if_pos h, wholeText_eq hx h]
    by_cases hzero : x = ofRank true 0
    · obtain ⟨hsign, hrank⟩ := eq_negativeZero_iff.1 hzero
      rw [if_pos hzero, general_eq hx, signText, hsign, hrank]
      rfl
    · rw [if_neg hzero, if_neg hzero]
  · rw [if_neg h]

theorem ofSignedText_general : ofSignedText x.general = x := by
  have hrank : x.rank < infiniteRank := of_decide_eq_true hx
  have hnumeral := (Decimal.positional_spec (Decimal.shortest .up x.rank)).1
  rw [general_eq hx, signText, ofSignedText_numeral _ hnumeral, Decimal.rank_ofText_positional,
    Decimal.rank_shortest _ hrank, ofRank_isNegative_rank]

theorem ofSignedText_literalText :
    ofSignedText x.literalText = if x = ofRank true 0 then ofRank false 0 else x := by
  rw [literalText_eq hx]
  split
  · decide +kernel
  · exact ofSignedText_general hx

end Finite

/-- The texts of a finite number. The general rendering writes, behind the sign, a shortest decimal
that reads as the number and is nearest to it among those, and the number is the one nearest to the
decimal. The text as a value is that rendering, whichever way it is written; in a printed program a
negative zero loses its sign; a list of tokens adds one place exactly to the integers below
`10 ^ 15`. Each text reads back as the number, or as the other zero, and different numbers have
different texts. -/
theorem texts_agree {x : Number} (hx : x.isFinite = true) :
    ((Decimal.shortest .up x.rank).IsShortest x.rank ∧
      IsNumeral (Decimal.shortest .up x.rank).positional ∧
      (Decimal.ofText (Decimal.shortest .up x.rank).positional).value =
        (Decimal.shortest .up x.rank).value ∧
      IsNearest (Decimal.shortest .up x.rank).value x.rank ∧
      x.general = x.signText ++ String.ofList (Decimal.shortest .up x.rank).positional) ∧
    x.valueText = x.general ∧
    x.literalText = (if x = ofRank true 0 then "0" else x.general) ∧
    (x.IsShortInteger → x.tokenText = x.literalText ++ ".0") ∧
    (¬x.IsShortInteger → x.tokenText = x.literalText) ∧
    ofSignedText x.valueText = x ∧
    ofSignedText x.literalText = (if x = ofRank true 0 then ofRank false 0 else x) ∧
    ofSignedText x.tokenText = (if x = ofRank true 0 then ofRank false 0 else x) ∧
    ∀ y : Number, y.isFinite = true → x.valueText = y.valueText → x = y := by
  have hrank : x.rank < infiniteRank := of_decide_eq_true hx
  have hshortest := Decimal.isShortest_shortest .up hrank
  have hnumeral := (Decimal.positional_spec (Decimal.shortest .up x.rank)).1
  refine ⟨⟨hshortest, hnumeral, Decimal.value_ofText_positional _,
    Decimal.isNearest_rank hrank hshortest.reads, general_eq hx⟩, valueText_eq hx,
    literalText_eq hx, fun h ↦ ?_, fun h ↦ ?_, ?_, ofSignedText_literalText hx, ?_,
    fun y hy htext ↦ ?_⟩
  · rw [tokenText_eq, if_pos ((isShortWhole_iff_isShortInteger hx).2 h)]
  · rw [tokenText_eq, if_neg fun hshort ↦ h ((isShortWhole_iff_isShortInteger hx).1 hshort)]
  · rw [valueText_eq hx, ofSignedText_general hx]
  · rw [ofSignedText_tokenText, ofSignedText_literalText hx]
  · rw [← ofSignedText_general hx, ← valueText_eq hx, htext, valueText_eq hy,
      ofSignedText_general hy]

/-- The texts of one hundred. -/
theorem texts_agree_hundred :
    (⟨0x4059000000000000⟩ : Number).isFinite = true ∧
    (⟨0x4059000000000000⟩ : Number).general = "100" ∧
    (⟨0x4059000000000000⟩ : Number).tokenText = "100.0" := by
  have hfinite : (⟨0x4059000000000000⟩ : Number).isFinite = true := by decide
  have hshort : (⟨0x4059000000000000⟩ : Number).isShortWhole = true := by decide +kernel
  obtain ⟨-, hvalue, -, htoken, -⟩ := texts_agree hfinite
  refine ⟨hfinite, hvalue.symm.trans (by decide +kernel), ?_⟩
  rw [htoken ((isShortWhole_iff_isShortInteger hfinite).1 hshort)]
  decide +kernel

end Number

end LexScript

import LexScript.Number.Basic

/-!
# Rounding a ratio to a number

A ratio of natural numbers is rounded to the nearest binary64 magnitude, a tie going to the
even significand, and everything beyond the largest finite value to infinity. The result is
a rank, so that a carry out of the significand needs no case of its own: the rank after the
largest significand of one place is the smallest significand of the next.

## Main definitions

* `nearestQuotient` : the whole number nearest to a ratio, ties to even.
* `rankOfRatio` : the rank of the binary64 magnitude nearest to a ratio.
-/

namespace LexScript.Number

-- A power of natural numbers is the one of the core library, whatever else is imported.
attribute [local instance (high)] instPowNat

/-- The whole number nearest to `a / b`; of two equally near ones the even one. -/
def nearestQuotient (a b : Nat) : Nat :=
  let quotient := a / b
  let remainder := a % b
  if 2 * remainder < b then quotient
  else if b < 2 * remainder then quotient + 1
  else quotient + quotient % 2

/-- The place at which a value of `units` least units has a significand below `2 ^ 53`. -/
def placeOfUnits (units : Nat) : Nat := units.log2 - 52

/-- The rank of the magnitude nearest to `a / b`, the infinite rank if that is too large. -/
def rankOfRatio (a b : Nat) : Nat :=
  let scaled := a * unitsPerOne
  let place := placeOfUnits (scaled / b)
  min infiniteRank (place * 2 ^ (52 : Nat) + nearestQuotient scaled (b * 2 ^ place))

end LexScript.Number

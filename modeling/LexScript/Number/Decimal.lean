import LexScript.Number.Rounding

/-!
# Decimals

A decimal is a whole number of powers of ten. Reading a decimal rounds it to the nearest
binary64 magnitude. The decimal chosen to show a magnitude is the one with the fewest digits
that reads back to it; of several such decimals the one nearest to the magnitude. The search
goes from coarse grids of powers of ten to finer ones and tests on each grid only the two
neighbours of the exact value, since these read back whenever any point of the grid does.
What the search selects is tested with the reader itself.

## Main definitions

* `Decimal` : digits and a power of ten.
* `Decimal.rank` : the binary64 rank that a decimal reads as.
* `Decimal.shortest` : the decimal that shows a rank.
-/

namespace LexScript

/-- The value `digits * 10 ^ exponent`. -/
structure Decimal where
  digits : Nat
  exponent : Int
deriving DecidableEq

/-- Which of two equally near decimals is chosen. -/
inductive Tie where
  | up
  | toEven
deriving DecidableEq

namespace Decimal

-- A power of natural numbers is the one of the core library, whatever else is imported.
attribute [local instance (high)] instPowNat

/-- The numerator of the value as a ratio of natural numbers. -/
def numerator (d : Decimal) : Nat := d.digits * 10 ^ d.exponent.toNat

/-- The denominator of the value as a ratio of natural numbers. -/
def denominator (d : Decimal) : Nat := 10 ^ (-d.exponent).toNat

/-- The rank that the decimal reads as. -/
def rank (d : Decimal) : Nat := Number.rankOfRatio d.numerator d.denominator

/-- The same value without trailing zeros; `fuel` bounds how many are dropped. -/
def dropZeros : Nat → Decimal → Decimal
  | 0, d => d
  | fuel + 1, d =>
    if d.digits ≠ 0 ∧ d.digits % 10 = 0 then dropZeros fuel ⟨d.digits / 10, d.exponent + 1⟩
    else d

/-- The number of whole steps of `10 ^ grid` in `units` least units. -/
def stepsBelow (units : Nat) (grid : Int) : Nat :=
  units * 10 ^ (-grid).toNat / (Number.unitsPerOne * 10 ^ grid.toNat)

/-- Compares the value of `units` least units with the middle of two steps of a grid. -/
def compareMiddle (units : Nat) (grid : Int) (steps : Nat) : Ordering :=
  compare (2 * units * 10 ^ (-grid).toNat)
    ((2 * steps + 1) * Number.unitsPerOne * 10 ^ grid.toNat)

/-- Of two neighbours of a value the one that reads back, and if both do the nearer one. -/
def neighbour? (tie : Tie) (middle : Ordering) (lower upper : Decimal) :
    (lowerReads upperReads : Bool) → Option Decimal
  | false, false => none
  | true, false => some lower
  | false, true => some upper
  | true, true =>
    match middle, tie with
    | .lt, _ => some lower
    | .gt, _ => some upper
    | .eq, .up => some upper
    | .eq, .toEven => if lower.digits % 2 = 0 then some lower else some upper

/-- The point of the grid `10 ^ grid` that reads as `rank` and is nearest to it, if any does. -/
def onGrid? (tie : Tie) (rank : Nat) (grid : Int) : Option Decimal :=
  let units := Number.magnitudeOfRank rank
  let steps := stepsBelow units grid
  let lower : Decimal := ⟨steps, grid⟩
  let upper : Decimal := ⟨steps + 1, grid⟩
  neighbour? tie (compareMiddle units grid steps) lower upper (decide (lower.rank = rank))
    (decide (upper.rank = rank))

/-- Tries `tries` grids, each ten times as fine as the one before. -/
def search (tie : Tie) (rank : Nat) : Nat → Int → Option Decimal
  | 0, _ => none
  | tries + 1, grid =>
    onGrid? tie rank grid <|> search tie rank tries (grid - 1)

/-- A grid at least as coarse as a value of `units` least units, and at most some steps
coarser. -/
def coarsestGrid (units : Nat) : Int :=
  ((units.log2 : Int) - 1073) * 30103 / 100000 + 1

/-- The exact value of a rank, `2 ^ (-1074)` being a decimal with 1074 places. -/
def exact (rank : Nat) : Decimal :=
  ⟨Number.magnitudeOfRank rank * 5 ^ Number.places, -(Number.places : Int)⟩

/-- The number of grids tried: seventeen digits tell any two binary64 values apart, and the
first grids may be too coarse for a single digit. -/
def gridsTried : Nat := 24

/-- The decimal with the fewest digits that reads as `rank`, without trailing zeros. -/
def shortest (tie : Tie) (rank : Nat) : Decimal :=
  if rank = 0 then ⟨0, 0⟩
  else
    let found := search tie rank gridsTried (coarsestGrid (Number.magnitudeOfRank rank))
    let d := found.getD (exact rank)
    dropZeros d.digits.log2 d

end Decimal

end LexScript

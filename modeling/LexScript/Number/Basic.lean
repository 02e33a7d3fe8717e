/-!
# Numbers

A number of the language is a binary64 value, held as its bit pattern. Equality of
patterns is decidable and distinguishes the two zeros; the equality that programs see is
`Number.equals`, for which a NaN differs from itself and the zeros agree.

A finite number is a whole multiple of `2 ^ (-1074)`. `Number.magnitude` is that multiple
without the sign, so statements about values need only natural numbers. The rank of a
pattern is the pattern without its sign bit; ranks enumerate the magnitudes in ascending
order, which is why rounding (`LexScript.Number.Rounding`) produces ranks.

## Main definitions

* `Number` : a bit pattern.
* `Number.rank`, `Number.magnitude` : order and exact value of the unsigned part.
* `Number.IsWhole`, `Number.isWhole` : the value has no fractional part.
-/

namespace LexScript

/-- A binary64 value, held as its bit pattern. -/
structure Number where
  bits : UInt64
deriving DecidableEq, Inhabited

namespace Number

-- A power of natural numbers is the one of the core library, whatever else is imported.
attribute [local instance (high)] instPowNat

/-! ## Arithmetic -/

/-- The pattern as a machine number. -/
def toFloat (x : Number) : Float := Float.ofBits x.bits

/-- The pattern of a machine number. -/
def ofFloat (x : Float) : Number := ⟨x.toBits⟩

/-- The whole number `n`, rounded to the nearest value. -/
def ofNat (n : Nat) : Number := ofFloat (Float.ofNat n)

/-- The sum, correctly rounded. -/
def add (x y : Number) : Number := ofFloat (x.toFloat + y.toFloat)

/-- The difference, correctly rounded. -/
def sub (x y : Number) : Number := ofFloat (x.toFloat - y.toFloat)

/-- The product, correctly rounded. -/
def mul (x y : Number) : Number := ofFloat (x.toFloat * y.toFloat)

/-- The quotient, correctly rounded; a divisor of zero is for the caller to refuse. -/
def div (x y : Number) : Number := ofFloat (x.toFloat / y.toFloat)

/-- The value with the opposite sign. -/
def neg (x : Number) : Number := ofFloat (-x.toFloat)

/-- Strict order; false when either side is a NaN. -/
def less (x y : Number) : Bool := x.toFloat < y.toFloat

/-- Order or equality; false when either side is a NaN. -/
def atMost (x y : Number) : Bool := x.toFloat ≤ y.toFloat

/-! ## The parts of a pattern -/

/-- The rank of the infinities, one more than the rank of any finite value. -/
def infiniteRank : Nat := 0x7FF * 2 ^ (52 : Nat)

/-- Whether the sign bit is set, which it may be for zeros and NaNs too. -/
def isNegative (x : Number) : Bool := decide (2 ^ (63 : Nat) ≤ x.bits.toNat)

/-- The pattern without its sign bit. -/
def rank (x : Number) : Nat := x.bits.toNat % 2 ^ (63 : Nat)

/-- A value with the given sign and rank. -/
def ofRank (negative : Bool) (rank : Nat) : Number :=
  ⟨UInt64.ofNat (cond negative (2 ^ (63 : Nat) + rank) rank)⟩

/-- Whether the value is not a number. -/
def isNaN (x : Number) : Bool := decide (infiniteRank < x.rank)

/-- Whether the value is an infinity of either sign. -/
def isInfinite (x : Number) : Bool := decide (x.rank = infiniteRank)

/-- Whether the value is a finite number. -/
def isFinite (x : Number) : Bool := decide (x.rank < infiniteRank)

/-- Whether the value is one of the two zeros. -/
def isZero (x : Number) : Bool := decide (x.rank = 0)

/-- Equality as programs see it: zeros agree, and a NaN equals nothing. -/
def equals (x y : Number) : Bool :=
  !x.isNaN && !y.isNaN && (decide (x = y) || x.isZero && y.isZero)

/-- The significand of a rank: below `2 ^ 52` exactly for the ranks of least place. -/
def significand (rank : Nat) : Nat :=
  if rank / 2 ^ (52 : Nat) = 0 then rank else 2 ^ (52 : Nat) + rank % 2 ^ (52 : Nat)

/-- The place of a rank: its significand counts units of `2 ^ (place - 1074)`. -/
def place (rank : Nat) : Nat := rank / 2 ^ (52 : Nat) - 1

/-- The exact value of a rank as a multiple of `2 ^ (-1074)`. -/
def magnitudeOfRank (rank : Nat) : Nat := significand rank * 2 ^ place rank

/-- The number of binary places of the finite values. -/
def places : Nat := 1074

/-- The number of least units `2 ^ (-1074)` in one. -/
def unitsPerOne : Nat := 2 ^ places

/-- The unsigned value as a multiple of `2 ^ (-1074)`; meaningful for finite numbers. -/
def magnitude (x : Number) : Nat := magnitudeOfRank x.rank

/-- Whether the value is finite and has no fractional part. -/
def isWhole (x : Number) : Bool := x.isFinite && x.magnitude % unitsPerOne == 0

/-- The unsigned value without its fractional part. -/
def wholePart (x : Number) : Nat := x.magnitude / unitsPerOne

end Number

end LexScript

import LexScript.Number.Decimal

/-!
# Texts of numbers

A number is shown in four ways. The general rendering is positional and never has an
exponent; it writes the shortest decimal that reads back. Values, number tokens and literals
in printed programs use it except that a whole number below `10 ^ 15` is written by the
digits of its whole part, each with its own rule for a negative zero and for a point. The
rendering for data exchange always has a point or an exponent.

A number token is read by rounding its digits once, so reading is the inverse of showing for
every finite number.

## Main definitions

* `Number.general` : the general rendering.
* `Number.valueText`, `Number.tokenText`, `Number.literalText` : the texts that programs,
  token lists and printed programs show.
* `Number.exchangeText` : the text in exchanged data.
* `Number.ofText` : the number that a number token denotes.
-/

namespace LexScript

namespace Decimal

/-- The decimal digits of a natural number, most significant first. -/
def digitsOf (n : Nat) : List Char := Nat.toDigits 10 n

/-- Digits with a point `places` from their end, zeros filled in before them. -/
def withPoint (places : Nat) (digits : List Char) : List Char :=
  if places < digits.length then
    digits.take (digits.length - places) ++ '.' :: digits.drop (digits.length - places)
  else '0' :: '.' :: (List.replicate (places - digits.length) '0' ++ digits)

/-- The value without an exponent. -/
def positional (d : Decimal) : List Char :=
  match d.exponent with
  | .ofNat zeros => digitsOf d.digits ++ List.replicate zeros '0'
  | .negSucc n => withPoint (n + 1) (digitsOf d.digits)

/-- A power of ten with its sign, which is always written. -/
def powerText (power : Int) : List Char :=
  match power with
  | .ofNat n => '+' :: digitsOf n
  | .negSucc n => '-' :: digitsOf (n + 1)

/-- The value with one digit before the point and a power of ten. -/
def scientific (d : Decimal) : List Char :=
  let power := 'e' :: powerText (d.exponent + (digitsOf d.digits).length - 1)
  match digitsOf d.digits with
  | [] => []
  | [first] => first :: power
  | first :: rest => first :: '.' :: (rest ++ power)

/-- The value with a point, or with an exponent if it is below `10 ^ (-5)` or not below
`10 ^ 16`. -/
def exchange (d : Decimal) : List Char :=
  let size := d.exponent + (digitsOf d.digits).length
  if size ≤ -5 ∨ 16 < size then d.scientific
  else
    match d.exponent with
    | .ofNat _ => d.positional ++ ['.', '0']
    | .negSucc _ => d.positional

/-- The digit that a character stands for. -/
def digitValue (c : Char) : Nat := c.toNat - '0'.toNat

/-- The natural number that digits stand for. -/
def ofDigits (digits : List Char) : Nat :=
  digits.foldl (fun n c ↦ 10 * n + digitValue c) 0

/-- The decimal that a text of digits with at most one point stands for. -/
def ofText (text : List Char) : Decimal :=
  let whole := text.takeWhile (· != '.')
  let places := (text.dropWhile (· != '.')).drop 1
  ⟨ofDigits (whole ++ places), -(places.length : Int)⟩

end Decimal

namespace Number

-- A power of natural numbers is the one of the core library, whatever else is imported.
attribute [local instance (high)] instPowNat

/-- The number that a text of digits with at most one point denotes. -/
def ofText (text : String) : Number := ofRank false (Decimal.ofText text.toList).rank

/-- The sign of a text, written for negative values only. -/
def signText (x : Number) : String := if x.isNegative then "-" else ""

/-- The shortest decimal that reads back, without an exponent; a tie goes up. -/
def general (x : Number) : String :=
  if x.isNaN then "NaN"
  else if x.isInfinite then x.signText ++ "inf"
  else x.signText ++ String.ofList (Decimal.shortest .up x.rank).positional

/-- Whether a number is whole and below `10 ^ 15` without its sign. -/
def isShortWhole (x : Number) : Bool :=
  x.isWhole && decide (x.magnitude < 10 ^ (15 : Nat) * unitsPerOne)

/-- The digits of a whole number with its sign; a zero has none. -/
def wholeText (x : Number) : String :=
  (if x.wholePart = 0 then "" else x.signText) ++ String.ofList (Decimal.digitsOf x.wholePart)

/-- The text of a number as a value: a negative zero keeps its sign. -/
def valueText (x : Number) : String :=
  if x.isNaN then "NaN"
  else if x.isInfinite then x.signText ++ "Infinity"
  else if x.isShortWhole then
    if x.isZero && x.isNegative then "-0" else x.wholeText
  else x.general

/-- The text of a number in a list of tokens: a short whole number gets one place. -/
def tokenText (x : Number) : String :=
  if x.isShortWhole then x.wholeText ++ ".0" else x.general

/-- The text of a number in a printed program. -/
def literalText (x : Number) : String :=
  if x.isShortWhole then x.wholeText else x.general

/-- The text of a finite number in exchanged data; a tie goes to the even digit. -/
def exchangeText (x : Number) : String :=
  if x.rank = 0 then x.signText ++ "0.0"
  else x.signText ++ String.ofList (Decimal.shortest .toEven x.rank).exchange

end Number

end LexScript

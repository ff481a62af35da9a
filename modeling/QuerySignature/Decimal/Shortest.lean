namespace QuerySignature

/-! # Shortest decimals

A finite double stands for all the reals that round to it. Its shortest decimal is the one with
the fewest digits among them, and of several with equally few digits the nearest to the double
itself; of two equally near ones the upper.

Everything is decided in natural numbers: the double is `mantissa * 2 ^ exponent`, a decimal is
`digits * 10 ^ exponent`, and two such numbers are compared by multiplying out.
-/

/-- A positive double, as a whole number of units of a power of two. -/
structure Binary where
  mantissa : Nat
  exponent : Int
  /-- The double below is half as far away as the one above. -/
  closeBelow : Bool
  deriving DecidableEq, Repr

/-- The decimal `digits * 10 ^ exponent`. -/
structure Decimal where
  digits : Nat
  exponent : Int
  deriving DecidableEq, Repr

namespace Binary

/-- Reads the magnitude of a finite double off its bits; the sign bit is ignored. -/
def ofBits (bits : UInt64) : Binary :=
  let biased := (bits >>> 52).toNat % 2048
  let fraction := bits.toNat % Nat.pow 2 52
  if biased = 0 then ⟨fraction, -1074, false⟩
  else ⟨Nat.pow 2 52 + fraction, (biased : Int) - 1075, fraction == 0 && biased != 1⟩

/-- Numerator of the value over `denominator`. -/
def numerator (x : Binary) : Nat := x.mantissa * Nat.pow 2 x.exponent.toNat

/-- The power of two that makes the value a fraction of whole numbers. -/
def denominator (x : Binary) : Nat := Nat.pow 2 (-x.exponent).toNat

end Binary

/-- Compares `a * 10 ^ i` with `b * 2 ^ j`. -/
def compareScaled (a : Nat) (i : Int) (b : Nat) (j : Int) : Ordering :=
  compare (a * Nat.pow 10 i.toNat * Nat.pow 2 (-j).toNat)
    (b * Nat.pow 2 j.toNat * Nat.pow 10 (-i).toNat)

namespace Binary

/-- Whether a decimal is among the reals that round to `x`. The interval ends half way to the two
neighbours, and its ends belong to it exactly when the mantissa is even. -/
def holds (x : Binary) (d : Decimal) : Bool :=
  let unit := x.exponent - 2
  let low := compareScaled d.digits d.exponent (4 * x.mantissa - if x.closeBelow then 1 else 2) unit
  let high := compareScaled d.digits d.exponent (4 * x.mantissa + 2) unit
  let closed := x.mantissa % 2 == 0
  (low == .gt || (closed && low == .eq)) && (high == .lt || (closed && high == .eq))

end Binary

/-! ## Scale -/

/-- How many decimal digits a natural number is written with. -/
def digitCount (n : Nat) : Nat := (Nat.toDigits 10 n).length

/-- The least `k` such that `num / den < 10 ^ k`, for positive `num` and `den`. -/
def decimalPlaces (num den : Nat) : Int :=
  if den ≤ num then digitCount (num / den) else 1 - (digitCount ((den - 1) / num) : Int)

namespace Binary

/-- The value divided by `10 ^ e`, rounded down. -/
def floorAt (x : Binary) (e : Int) : Nat :=
  x.numerator * Nat.pow 10 (-e).toNat / (x.denominator * Nat.pow 10 e.toNat)

/-- Whether the value lies below the middle of `n` and `n + 1` in units of `10 ^ e`. -/
def belowMiddle (x : Binary) (n : Nat) (e : Int) : Bool :=
  2 * x.numerator * Nat.pow 10 (-e).toNat < (2 * n + 1) * x.denominator * Nat.pow 10 e.toNat

/-- The better of the two decimals next to the value on the grid of `10 ^ e`, if one of them rounds
back. -/
def nearest? (x : Binary) (e : Int) : Option Decimal :=
  let below : Decimal := ⟨x.floorAt e, e⟩
  let above : Decimal := ⟨x.floorAt e + 1, e⟩
  match x.holds below, x.holds above with
  | true, true => some (if x.belowMiddle below.digits e then below else above)
  | true, false => some below
  | false, true => some above
  | false, false => none

/-- The exact value as a decimal. -/
def exact (x : Binary) : Decimal :=
  ⟨x.numerator * Nat.pow 5 (-x.exponent).toNat, -((-x.exponent).toNat : Int)⟩

end Binary

/-- Moves trailing zeros of the digits into the exponent. -/
def Decimal.trim (d : Decimal) : Decimal :=
  if h : 0 < d.digits ∧ d.digits % 10 = 0 then
    Decimal.trim ⟨d.digits / 10, d.exponent + 1⟩
  else d
termination_by d.digits
decreasing_by omega

/-- The shortest decimal of a positive double. Seventeen digits always suffice; the exact value
stands in should they not. -/
def Binary.shortest (x : Binary) : Decimal :=
  let places := decimalPlaces x.numerator x.denominator
  let found := (List.range 17).findSome? fun n => x.nearest? (places - (n + 1 : Nat))
  (found.getD x.exact).trim

end QuerySignature

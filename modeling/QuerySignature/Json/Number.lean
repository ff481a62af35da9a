import QuerySignature.Json.Value

namespace QuerySignature

/-! # Numbers in JSON text

A number without point and exponent is a whole number if it fits 64 bits. Any other is a double:
its digits, as many as fit 64 bits, times or divided by a power of ten, both as doubles. A number
too large for a double is refused.
-/

namespace Json

/-- The largest significand. -/
def maxSignificand : Nat := Nat.pow 2 64 - 1

/-- The digits read so far as `significand * 10 ^ exponent`. -/
structure Significand where
  significand : Nat
  exponent : Int
  deriving DecidableEq, Repr

/-- The value of a digit. -/
def digitValue (c : Char) : Nat := c.toNat - '0'.toNat

namespace Significand

/-- Reads the digits before the point; those that no longer fit only raise the exponent. -/
def whole (start : Significand) : List Char → Significand
  | [] => start
  | c :: rest =>
    let next := start.significand * 10 + digitValue c
    if next ≤ maxSignificand then whole ⟨next, start.exponent⟩ rest
    else ⟨start.significand, start.exponent + (rest.length + 1 : Nat)⟩

/-- Reads the digits behind the point up to the first that no longer fits. -/
def fraction (start : Significand) : List Char → Significand
  | [] => start
  | c :: rest =>
    let next := start.significand * 10 + digitValue c
    if next ≤ maxSignificand then fraction ⟨next, start.exponent - 1⟩ rest else start

end Significand

/-- The power of ten as a double. -/
def powerOfTen (n : Nat) : Float := Float.ofScientific 1 false n

/-- Scales a double by a power of ten; `none` when the result is too large. -/
def scale (x : Float) (exponent : Int) : Option Float :=
  if exponent.natAbs ≤ 308 then
    if 0 ≤ exponent then
      let y := x * powerOfTen exponent.natAbs
      if y.isInf then none else some y
    else some (x / powerOfTen exponent.natAbs)
  else if x == 0 then some x
  else if h : 0 ≤ exponent then none
  else scale (x / powerOfTen 308) (exponent + 308)
termination_by (-exponent).toNat
decreasing_by omega

/-- The largest written exponent that is looked at. -/
def maxExponent : Nat := Nat.pow 2 31 - 1

/-- A double from its parts; `written` is the exponent that the text gives. -/
def float? (negative : Bool) (digits : Significand) (written : Int) : Option Json :=
  let magnitude :=
    if maxExponent < written.natAbs then
      if digits.significand ≠ 0 ∧ 0 < written then none else some 0
    else scale digits.significand.toUInt64.toFloat (digits.exponent + written)
  magnitude.map fun x => .float (if negative then -x else x)

/-- A whole number, or the double next to it when it does not fit 64 bits or is negative zero. -/
def whole? (negative : Bool) (digits : List Char) : Option Json :=
  let read := Significand.whole ⟨0, 0⟩ digits
  if read.exponent ≠ 0 then float? negative read 0
  else if !negative then some (.int read.significand)
  else if read.significand = 0 ∨ Nat.pow 2 63 < read.significand then float? true read 0
  else some (.int (-(read.significand : Int)))

/-- The value of a row of digits. -/
def natOfDigits (digits : List Char) : Nat :=
  digits.foldl (fun n c => n * 10 + digitValue c) 0

/-- Reads `e`, a sign and digits to the end of the text. -/
def exponent? (text : List Char) : Option Int :=
  match text with
  | e :: rest =>
    if e = 'e' ∨ e = 'E' then
      let (negative, digits) := match rest with
        | '-' :: ds => (true, ds)
        | '+' :: ds => (false, ds)
        | ds => (false, ds)
      if digits.isEmpty || !digits.all Char.isDigit then none
      else some (if negative then -(natOfDigits digits : Int) else natOfDigits digits)
    else none
  | [] => none

/-- Reads a number from the whole of a text. -/
def number? (text : List Char) : Option Json :=
  let (negative, body) := match text with
    | '-' :: rest => (true, rest)
    | rest => (false, rest)
  let digits := body.takeWhile Char.isDigit
  let rest := body.dropWhile Char.isDigit
  if digits.isEmpty || (digits.head? == some '0' && digits.length != 1) then none
  else match rest with
    | [] => whole? negative digits
    | '.' :: behind =>
      let places := behind.takeWhile Char.isDigit
      let read := ((⟨0, 0⟩ : Significand).whole digits).fraction places
      if places.isEmpty then none
      else match behind.dropWhile Char.isDigit with
        | [] => float? negative read 0
        | tail => (exponent? tail).bind (float? negative read)
    | tail => (exponent? tail).bind (float? negative ((⟨0, 0⟩ : Significand).whole digits))

end Json

end QuerySignature

import QuerySignature.Decimal.Shortest

namespace QuerySignature

/-! # Decimals as text

A `Layout` holds the choices of one way to write a double; `Layout.text` writes it with the digits
of its shortest decimal.
-/

/-- The choices of one way to write a double. -/
structure Layout where
  /-- Exponents of the leading digit that are written without an exponent; `none` is all of them. -/
  positional : Option (Int × Int)
  /-- Whole numbers end in `.0`. -/
  pointZero : Bool
  deriving DecidableEq, Repr

namespace Layout

/-- A row of zeros. -/
def zeros (n : Nat) : String := String.ofList (List.replicate n '0')

/-- Digits with the point set where the exponent asks. -/
def point (layout : Layout) (digits : List Char) (exponent : Int) : String :=
  let fractional := (-exponent).toNat
  if 0 ≤ exponent then
    String.ofList digits ++ zeros exponent.toNat ++ (if layout.pointZero then ".0" else "")
  else if fractional < digits.length then
    let whole := digits.length - fractional
    String.ofList (digits.take whole) ++ "." ++ String.ofList (digits.drop whole)
  else
    "0." ++ zeros (fractional - digits.length) ++ String.ofList digits

/-- One digit, the others behind a point, and the exponent of the first. -/
def scientific (digits : List Char) (exponent : Int) : String :=
  let tail := digits.drop 1
  String.ofList (digits.take 1) ++ (if tail.isEmpty then "" else "." ++ String.ofList tail) ++
    "e" ++ toString exponent

/-- A positive decimal in the layout. -/
def decimal (layout : Layout) (d : Decimal) : String :=
  let digits := Nat.toDigits 10 d.digits
  let leading := d.exponent + digits.length - 1
  let positional := match layout.positional with
    | none => true
    | some (first, last) => first ≤ leading && leading ≤ last
  if positional then layout.point digits d.exponent else scientific digits leading

/-- A double in the layout; the sign of zero is kept. -/
def text (layout : Layout) (x : Float) : String :=
  let sign := if x.toBits >>> 63 == 1 then "-" else ""
  if x.isNaN then "NaN"
  else if x.isInf then sign ++ "inf"
  else
    let magnitude := Binary.ofBits x.toBits
    if magnitude.mantissa = 0 then sign ++ (if layout.pointZero then "0.0" else "0")
    else sign ++ layout.decimal magnitude.shortest

end Layout

end QuerySignature

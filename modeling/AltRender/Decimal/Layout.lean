import AltRender.Decimal.Shortest
import AltRender.Text.Letters

/-!
# `Decimal/Layout` — where the point of a printed number stands

The shortest digits of a number say what it is; a layout says how it is written. Signatures and
listings write every number positionally, however many zeros that takes (`1e21` has twenty-one of
them), because a number there may become part of a file name that has to be readable. The JSON
layout writes very large and very small numbers with an exponent and keeps `.0` on whole numbers.

That a finite number is read back from its plain text, but for negative zero, is proved in
`Proofs/Decimal/ReadBack`. The way a tie between two shortest decimals is broken is part of the
layout, as printers differ in that.
-/

set_option autoImplicit false

namespace AltRender.Decimal

open AltRender.Text

/-- The digits of a natural number, without leading zeros; 0 is `0`. -/
def digitsOf (n : Nat) : List Char :=
  Nat.toDigits 10 n

/-- How numbers are written. -/
structure Layout where
  /-- Which of two equally short and equally near decimals is written. -/
  tie : Tie
  /-- The exponents of the first digit for which a number is written without an exponent. -/
  positional : Int → Bool
  /-- What follows the digits of a whole number that is written without an exponent. -/
  wholeSuffix : String
  /-- The sign of an exponent that is not negative. -/
  plus : String

/-- Numbers in listings and signatures: the shortest digits, never an exponent, whole numbers
without a point. A tie goes up. -/
def Layout.plain : Layout := ⟨.up, fun _ => true, "", ""⟩

/-- Numbers in JSON: whole numbers end in `.0`; outside `10^-5 ≤ x < 10^16` there is an exponent. A
tie goes to the even digit. -/
def Layout.json : Layout := ⟨.even, fun e => -5 ≤ e && e < 16, ".0", "+"⟩

/-- The digits with the point `place` digits after the first one's left side: zeros fill up what is
missing on either side. -/
def positionalText (layout : Layout) (digits : List Char) (place : Int) : List Char :=
  if place ≤ 0 then '0' :: '.' :: List.replicate (-place).toNat '0' ++ digits
  else if digits.length ≤ place.toNat then
    digits ++ List.replicate (place.toNat - digits.length) '0' ++ layout.wholeSuffix.toList
  else digits.take place.toNat ++ '.' :: digits.drop place.toNat

/-- One digit before the point, the others after it, and the exponent. -/
def exponentText (layout : Layout) (digits : List Char) (exponent : Int) : List Char :=
  let mantissa :=
    match digits with
    | [] => []
    | [d] => [d]
    | d :: ds => d :: '.' :: ds
  let sign := if exponent < 0 then ['-'] else layout.plus.toList
  mantissa ++ 'e' :: sign ++ digitsOf exponent.natAbs

def Scaled.text (d : Scaled) (layout : Layout) : List Char :=
  if d.digits = 0 then '0' :: layout.wholeSuffix.toList
  else
    let digits := digitsOf d.digits
    let place : Int := digits.length + d.exponent
    if layout.positional (place - 1) then positionalText layout digits place
    else exponentText layout digits (place - 1)

/-- The text of an exact value of a format. -/
def Exact.text (f : Binary) (layout : Layout) : Exact → List Char
  | .notANumber => "NaN".toList
  | .infinite negative => if negative then "-inf".toList else "inf".toList
  | .finite negative mantissa exponent =>
    let body := (shortest f layout.tie mantissa exponent).text layout
    if negative then '-' :: body else body

/-- **A number as listings and signatures show it:** the shortest digits that read back, never an
exponent. -/
def plainText (x : Float) : String :=
  String.ofList ((Exact.ofFloat x).text Binary.double Layout.plain)

def plainText32 (x : Float32) : String :=
  String.ofList ((Exact.ofFloat32 x).text Binary.single Layout.plain)

end AltRender.Decimal

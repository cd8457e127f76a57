import AltRender.Decimal.Binary
import AltRender.Text.Letters

/-!
# `Decimal/Reading` — numbers written in annotations

Two forms are numbers: a run of digits, and a run of digits with one point in it that has a digit on
at least one side. Either may have a sign. Both denote the double nearest to the exact decimal
value.

One corner is kept on purpose: a whole number has no negative zero, so `-0` is `0` while `-0.0` is
not.

The value is exact before it is rounded, once, however many digits there are; so a text with more
digits than a double can tell apart still denotes the nearest one. Digits enough give infinity.
-/

set_option autoImplicit false

namespace AltRender.Decimal

open AltRender.Text

/-- The double nearest to `digits · 10^exponent`. -/
def ofDecimal (negative : Bool) (digits : Nat) (exponent : Int) : Float :=
  if 0 ≤ exponent then toFloat negative (digits * Nat.pow 10 exponent.toNat) 1
  else toFloat negative digits (Nat.pow 10 (-exponent).toNat)

/-- The sign of a written number and what follows it. -/
def splitSign : List Char → Bool × List Char
  | '-' :: rest => (true, rest)
  | '+' :: rest => (false, rest)
  | cs => (false, cs)

/-- Whether the text is a run of digits with at most a sign before it. -/
def isWhole (cs : List Char) : Bool :=
  let digits := (splitSign cs).2
  !digits.isEmpty && digits.all isDigit

/-- The digits before the first point and those after it, if there is one. -/
def splitPoint (cs : List Char) : Option (List Char × List Char) :=
  match cs.span (· != '.') with
  | (whole, '.' :: fraction) => some (whole, fraction)
  | _ => none

/-- Whether the text is a decimal with a point and a digit on at least one side of it. -/
def isFractional (cs : List Char) : Bool :=
  match splitPoint (splitSign cs).2 with
  | none => false
  | some (whole, fraction) =>
    !(whole.isEmpty && fraction.isEmpty) && whole.all isDigit && fraction.all isDigit

/-- The number that a whole-number text writes. -/
def wholeValue (cs : List Char) : Float :=
  let (negative, digits) := splitSign cs
  let n := digitsValue digits
  ofDecimal (negative && n != 0) n 0

/-- The number that a decimal with a point writes. -/
def fractionalValue (cs : List Char) : Float :=
  let (negative, digits) := splitSign cs
  match splitPoint digits with
  | none => ofDecimal negative (digitsValue digits) 0
  | some (whole, fraction) =>
    ofDecimal negative (digitsValue (whole ++ fraction)) (-(fraction.length : Int))

/-- **The number a text writes,** if it is a whole number or a decimal with a point. -/
def read? (cs : List Char) : Option Float :=
  if isWhole cs then some (wholeValue cs)
  else if isFractional cs then some (fractionalValue cs)
  else none

end AltRender.Decimal

import AltRender.Decimal.Reading
import AltRender.Text.Letters

/-!
# `Json/Numeral` — what a JSON number stands for

A numeral is the written form of a number cut into its parts. It can be asked for two things: the
natural number below 2^64 that it is, if it has neither sign nor fraction nor exponent, and the
double that it stands for.

The double is found in two steps, each of which rounds: the leading digits, as many as fit into 64
bits, are one double, and that is multiplied or divided by a power of ten. A digit that no longer
fits counts as one more place before the point and is dropped behind it. What this makes infinite is
no number.
-/

set_option autoImplicit false

namespace AltRender.Json

open AltRender.Text AltRender.Decimal

/-- A written number: its sign, the digits before and behind the point, and the exponent. -/
structure Numeral where
  negative : Bool
  whole : List Char
  fraction : Option (List Char)
  exponent : Option (Bool × List Char)
  deriving DecidableEq, Repr

namespace Numeral

/-! ## Cutting a number from a text -/

/-- A fraction at the start of a text, and what follows: a point and at least one digit. -/
def takeFraction : List Char → Option (List Char) × List Char
  | '.' :: rest =>
    let digits := rest.takeWhile isDigit
    if digits.isEmpty then (none, '.' :: rest) else (some digits, rest.dropWhile isDigit)
  | cs => (none, cs)

/-- An exponent at the start of a text, whether it is negative, and what follows. -/
def takeExponent : List Char → Option (Bool × List Char) × List Char
  | [] => (none, [])
  | c :: rest =>
    let (negative, body) := splitSign rest
    let digits := body.takeWhile isDigit
    if (c = 'e' ∨ c = 'E') ∧ digits ≠ [] then (some (negative, digits), body.dropWhile isDigit)
    else (none, c :: rest)

/-- The digits before the point: one zero, or digits of which the first is none. -/
def takeWhole : List Char → Option (List Char × List Char)
  | '0' :: rest => some (['0'], rest)
  | cs =>
    let digits := cs.takeWhile isDigit
    if digits.isEmpty then none else some (digits, cs.dropWhile isDigit)

/-- **The number at the start of a text,** and what follows it. -/
def take (cs : List Char) : Option (Numeral × List Char) :=
  let (negative, unsigned) :=
    match cs with
    | '-' :: rest => (true, rest)
    | _ => (false, cs)
  (takeWhole unsigned).map fun (whole, rest) =>
    let (fraction, rest) := takeFraction rest
    let (exponent, rest) := takeExponent rest
    (⟨negative, whole, fraction, exponent⟩, rest)

def ofText? (literal : String) : Option Numeral :=
  match take literal.toList with
  | some (n, []) => some n
  | _ => none

/-! ## Its value -/

/-- The natural number below 2^64 that is written without sign, fraction and exponent. -/
def word? (n : Numeral) : Option UInt64 :=
  let value := digitsValue n.whole
  if !n.negative && n.fraction.isNone && n.exponent.isNone && value < Nat.pow 2 64
    then some (UInt64.ofNat value)
  else none

/-- Digits as `significand · 10^exponent`, with a significand below 2^64. -/
structure Scaled where
  significand : Nat
  exponent : Int

/-- Whether one more digit still fits into the significand. -/
def Scaled.fits (s : Scaled) (digit : Char) : Bool :=
  s.significand * 10 + digitValue digit < Nat.pow 2 64

/-- The digits before the point: from the first that does not fit, each is one place. -/
def addWhole (s : Scaled) : List Char → Scaled
  | [] => s
  | d :: ds =>
    if s.fits d then addWhole { s with significand := s.significand * 10 + digitValue d } ds
    else { s with exponent := s.exponent + (ds.length + 1) }

/-- The digits behind the point: from the first that does not fit, none counts. -/
def addFraction (s : Scaled) : List Char → Scaled
  | [] => s
  | d :: ds =>
    if s.fits d then addFraction ⟨s.significand * 10 + digitValue d, s.exponent - 1⟩ ds
    else s

/-- The greatest exponent that is looked at; a greater one counts as beyond all bounds. -/
def exponentBound : Nat := Nat.pow 2 31 - 1

/-- The power of ten with the given exponent, as a double. -/
def powerOfTen (n : Nat) : Float :=
  ofDecimal false 1 n

/-- A double divided by a power of ten, by 10^308 at a time. -/
def shrink (x : Float) (places : Nat) : Float :=
  if places ≤ 308 then x / powerOfTen places
  else if x == 0.0 then x
  else shrink (x / powerOfTen 308) (places - 308)
termination_by places

/-- A double times a power of ten, if that is finite. -/
def grow? (x : Float) (places : Nat) : Option Float :=
  if 308 < places then if x == 0.0 then some x else none
  else
    let y := x * powerOfTen places
    if (Exact.ofFloat y).isFinite then some y else none

/-- The double for scaled digits. -/
def Scaled.toFloat? (s : Scaled) : Option Float :=
  let x := toFloat false s.significand 1
  if s.exponent < 0 then some (shrink x s.exponent.natAbs) else grow? x s.exponent.natAbs

/-- The scaled digits with the written exponent added, kept within the bound on either side; nothing
if the exponent alone is beyond it. -/
def Scaled.shift (s : Scaled) (negative : Bool) (digits : List Char) : Option Scaled :=
  let places := digitsValue digits
  if exponentBound < places then none
  else
    let exponent := if negative then s.exponent - places else s.exponent + places
    some { s with exponent := max (-(exponentBound : Int) - 1) (min exponentBound exponent) }

/-- The digits of a numeral, scaled. -/
def scaled (n : Numeral) : Scaled :=
  addFraction (addWhole ⟨0, 0⟩ n.whole) (n.fraction.getD [])

/-- The double for the digits and the exponent, without the sign. -/
def magnitude? (n : Numeral) : Option Float :=
  match n.exponent with
  | none => n.scaled.toFloat?
  | some (negative, digits) =>
    match n.scaled.shift negative digits with
    | some s => s.toFloat?
    | none => if n.scaled.significand ≠ 0 ∧ !negative then none else some 0.0

/-- **The double that a numeral stands for,** if it has one. -/
def toFloat? (n : Numeral) : Option Float :=
  n.magnitude?.map fun x => if n.negative then -x else x

end Numeral

end AltRender.Json

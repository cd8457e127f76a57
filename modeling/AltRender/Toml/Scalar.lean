import AltRender.Decimal.Reading
import AltRender.Text.Letters
import AltRender.Toml.Basic

/-!
# `Toml/Scalar` — numbers, times and flags

An item that is not quoted is a run of letters, digits and a few signs, and its form decides what it
is. Underscores may stand between two digits. A whole number has to fit into 64 bits with a sign; a
number with a fraction or an exponent may not be beyond all bounds above. Dates and times have to
exist, leap years included.

Numbers and times are read to be refused where they are wrong; a file of settings has no use for
them otherwise. The texts `true` and `false` are the flags, and only as they are written here.
-/

set_option autoImplicit false

namespace AltRender.Toml

open AltRender.Text AltRender.Decimal

/-- A character of an item that is not quoted. -/
def isScalarChar (c : Char) : Bool :=
  isLetter c || isDigit c || c == '_' || c == '+' || c == '-' || c == '.' || c == ':'

/-! ## Numbers -/

/-- Whether the text is digits of a class, with single underscores between them at most. -/
def isGrouped (p : Char → Bool) : List Char → Bool
  | [] => false
  | [c] => p c
  | c :: '_' :: rest => p c && isGrouped p rest
  | c :: rest => p c && isGrouped p rest

def ungrouped (cs : List Char) : List Char :=
  cs.filter (· != '_')

/-- Whether the text is a whole number without sign: a single digit, or digits of which the first is
not zero. -/
def isPlainWhole (cs : List Char) : Bool :=
  isGrouped isDigit cs && (cs.length == 1 || cs.head? != some '0')

/-- The greatest number of 64 bits with a sign. -/
def greatestWhole : Nat := Nat.pow 2 63 - 1

/-- Whether the text is a whole number in decimal digits that fits. -/
def isDecimalWhole (cs : List Char) : Bool :=
  let (negative, digits) := splitSign cs
  isPlainWhole digits &&
    digitsValue (ungrouped digits) ≤ (if negative then greatestWhole + 1 else greatestWhole)

/-- The number that digits write in a base. -/
def baseValue (base : Nat) (digits : List Char) : Nat :=
  digits.foldl (fun n c => n * base + (hexValue? c).getD 0) 0

def isBaseDigit (base : Nat) (c : Char) : Bool :=
  match hexValue? c with
  | some n => n < base
  | none => false

/-- Whether the text is a whole number in digits of a base that fits. -/
def isBaseWhole (base : Nat) (digits : List Char) : Bool :=
  isGrouped (isBaseDigit base) digits && baseValue base (ungrouped digits) ≤ greatestWhole

def isWholeNumber : List Char → Bool
  | '0' :: 'x' :: digits => isBaseWhole 16 digits
  | '0' :: 'o' :: digits => isBaseWhole 8 digits
  | '0' :: 'b' :: digits => isBaseWhole 2 digits
  | cs => isDecimalWhole cs

/-- Whether the text is an exponent without its mark. -/
def isPower (cs : List Char) : Bool :=
  isGrouped isDigit (splitSign cs).2

/-- The parts of a number: before the point, behind it, and the exponent. -/
def numberParts (unsigned : List Char) : List Char × Option (List Char) × Option (List Char) :=
  let number := unsigned.takeWhile fun c => c != 'e' && c != 'E'
  let power := match unsigned.drop number.length with
    | [] => none
    | _ :: power => some power
  let whole := number.takeWhile (· != '.')
  let fraction := match number.drop whole.length with
    | [] => none
    | _ :: fraction => some fraction
  (whole, fraction, power)

/-- The greatest exponent that is worked out; a greater one is beyond all bounds. -/
def powerBound : Nat := 100000

/-- The double that the parts of a number write, without its sign. -/
def partsValue (whole fraction power : List Char) : Float :=
  let (down, digits) := splitSign power
  let size : Int := min powerBound (digitsValue (ungrouped digits))
  let exponent := (if down then -size else size) - (ungrouped fraction).length
  ofDecimal false (digitsValue (ungrouped (whole ++ fraction))) exponent

/-- Whether the text is a number with a fraction or an exponent. -/
def isFloatNumber (cs : List Char) : Bool :=
  let (negative, unsigned) := splitSign cs
  let (whole, fraction, power) := numberParts unsigned
  let special := unsigned == "inf".toList || unsigned == "nan".toList
  let formed := isPlainWhole whole && fraction.all (isGrouped isDigit) && power.all isPower &&
    (fraction.isSome || power.isSome)
  let bounded :=
    negative || (Exact.ofFloat (partsValue whole (fraction.getD []) (power.getD []))).isFinite
  special || (formed && bounded)

/-! ## Times -/

/-- The number that exactly so many digits write, if it is in a range. -/
def digitsIn? (count low high : Nat) (digits : List Char) : Option Nat :=
  let n := digitsValue digits
  if digits.length = count && digits.all isDigit && low ≤ n && n ≤ high then some n else none

/-- Whether a year has a 29th of February. -/
def isLeapYear (year : Nat) : Bool :=
  year % 4 = 0 && (year % 100 ≠ 0 || year % 400 = 0)

/-- The number of days in a month. -/
def daysIn (year month : Nat) : Nat :=
  if month = 2 then (if isLeapYear year then 29 else 28)
  else if month = 4 || month = 6 || month = 9 || month = 11 then 30
  else 31

/-- Whether the text is a date that exists. -/
def isDate : List Char → Bool
  | [y₁, y₂, y₃, y₄, '-', m₁, m₂, '-', d₁, d₂] =>
    match digitsIn? 4 0 9999 [y₁, y₂, y₃, y₄], digitsIn? 2 1 12 [m₁, m₂] with
    | some year, some month => (digitsIn? 2 1 (daysIn year month) [d₁, d₂]).isSome
    | _, _ => false
  | _ => false

/-- Whether the text is a fraction of a second, or nothing. -/
def isFractionOrNothing : List Char → Bool
  | [] => true
  | '.' :: digits => !digits.isEmpty && digits.all isDigit
  | _ => false

/-- Whether the text is a time of day. -/
def isTime : List Char → Bool
  | h₁ :: h₂ :: ':' :: m₁ :: m₂ :: ':' :: s₁ :: s₂ :: rest =>
    (digitsIn? 2 0 23 [h₁, h₂]).isSome && (digitsIn? 2 0 59 [m₁, m₂]).isSome &&
      (digitsIn? 2 0 60 [s₁, s₂]).isSome && isFractionOrNothing rest
  | _ => false

/-- Whether the text is a time of day with its distance from universal time. -/
def isZonedTime (cs : List Char) : Bool :=
  match cs.reverse with
  | 'Z' :: back | 'z' :: back => isTime back.reverse
  | m₂ :: m₁ :: ':' :: h₂ :: h₁ :: sign :: back =>
    (sign == '+' || sign == '-') && (digitsIn? 2 0 23 [h₁, h₂]).isSome &&
      (digitsIn? 2 0 59 [m₁, m₂]).isSome &&
      isTime back.reverse
  | _ => false

/-- Whether the text is a time of day, zoned or not. -/
def isAnyTime (cs : List Char) : Bool :=
  isTime cs || isZonedTime cs

/-- Whether the text is a date, a time of day, or a date and a time with a `T` between them. -/
def isMoment (cs : List Char) : Bool :=
  let time := cs.drop 11
  let mark := (cs.drop 10).head?
  isDate cs || isTime cs ||
    (isDate (cs.take 10) && (mark == some 'T' || mark == some 't') && isAnyTime time)

/-! ## Items -/

/-- What a run of characters that is not quoted stands for. -/
def scalar? (cs : List Char) : Option Item :=
  if cs = "true".toList then some (.flag true)
  else if cs = "false".toList then some (.flag false)
  else if isMoment cs then some .moment
  else if isFloatNumber cs || isWholeNumber cs then some .number
  else none

/-- The item that is not quoted at the start of a text, and what follows it. A date may have its
time behind a blank. -/
def takeScalar (cs : List Char) : Option (Item × List Char) :=
  let word := cs.takeWhile isScalarChar
  let rest := cs.dropWhile isScalarChar
  let next := (rest.drop 1).takeWhile isScalarChar
  if isDate word && rest.head? = some ' ' && !next.isEmpty then
    if isAnyTime next then some (.moment, (rest.drop 1).dropWhile isScalarChar) else none
  else (scalar? word).map fun item => (item, rest)

end AltRender.Toml

/-!
# `Decimal/Binary` — binary floating point as exact arithmetic

Every rule of this library that turns numbers into text, text into numbers, or numbers into bytes is
a statement about exact values. A binary floating-point number is a sign and a product `m · 2^q` of
natural numbers, so all of it is integer arithmetic: this file reads the bits of a number as such a
product, and rounds an arbitrary fraction back to the bits of the nearest number of a format.

Rounding is to the nearest number, a tie going to the even one. With `q` fixed by the size of the
fraction, the bits of the result are `(q - qmin) · 2^(p-1) + m` for normal and subnormal numbers
alike, and a carry out of `m` moves into the exponent by itself.
-/

set_option autoImplicit false

namespace AltRender.Decimal

/-! ## Formats -/

/-- A binary interchange format: `precision` significant bits, and the least exponent
`2^minExponent` that a number's last place can have. `infinityBits` are the bits of positive
infinity, one above the largest finite number. -/
structure Binary where
  precision : Nat
  minExponent : Int
  infinityBits : Nat

namespace Binary

def double : Binary := ⟨53, -1074, 0x7FF0000000000000⟩

def single : Binary := ⟨24, -149, 0x7F800000⟩

/-- The weight of the exponent field in the bits. -/
def exponentUnit (f : Binary) : Nat :=
  Nat.pow 2 (f.precision - 1)

/-- The bits that hold the sign of a negative number. -/
def signBits (f : Binary) : Nat :=
  f.infinityBits + f.exponentUnit

end Binary

/-! ## Exact values -/

/-- What the bits of a floating-point number say: `(-1)^negative · mantissa · 2^exponent`, an
infinity, or no number at all. A zero has mantissa 0 and keeps its sign. -/
inductive Exact where
  | notANumber
  | infinite (negative : Bool)
  | finite (negative : Bool) (mantissa : Nat) (exponent : Int)
  deriving DecidableEq, Repr

namespace Exact

/-- The exact value of the number with the given bits in a format. -/
def ofBits (f : Binary) (bits : Nat) : Exact :=
  let negative := decide (f.signBits ≤ bits)
  let magnitude := if negative then bits - f.signBits else bits
  if magnitude = f.infinityBits then .infinite negative
  else if f.infinityBits < magnitude then .notANumber
  else
    let field := magnitude / f.exponentUnit
    let fraction := magnitude % f.exponentUnit
    if field = 0 then .finite negative fraction f.minExponent
    else .finite negative (fraction + f.exponentUnit) (f.minExponent + (field - 1 : Nat))

def ofFloat (x : Float) : Exact :=
  ofBits Binary.double x.toBits.toNat

def ofFloat32 (x : Float32) : Exact :=
  ofBits Binary.single x.toBits.toNat

def isFinite : Exact → Bool
  | .finite .. => true
  | _ => false

end Exact

/-- `mantissa · 2^exponent` as a fraction of natural numbers. -/
def scaleByTwo (mantissa : Nat) (exponent : Int) : Nat × Nat :=
  if 0 ≤ exponent then (mantissa * Nat.pow 2 exponent.toNat, 1)
    else (mantissa, Nat.pow 2 (-exponent).toNat)

/-! ## Rounding to whole numbers -/

namespace Exact

/-- A whole number with a sign. -/
private def signed (negative : Bool) (n : Nat) : Int :=
  if negative then -(n : Int) else n

/-- The whole part: what remains when the digits after the point are dropped. -/
def truncate (negative : Bool) (mantissa : Nat) (exponent : Int) : Int :=
  let (num, den) := scaleByTwo mantissa exponent
  signed negative (num / den)

/-- The nearest whole number, a half going away from zero. -/
def nearest (negative : Bool) (mantissa : Nat) (exponent : Int) : Int :=
  let (num, den) := scaleByTwo mantissa exponent
  signed negative ((2 * num + den) / (2 * den))

/-- The nearest level from 0 to 255, a half going away from zero; what is no number has level 0. -/
def toLevel : Exact → UInt8
  | .notANumber => 0
  | .infinite negative => if negative then 0 else 255
  | .finite negative mantissa exponent =>
    let n := nearest negative mantissa exponent
    if n < 0 then 0 else if 255 < n then 255 else UInt8.ofNat n.toNat

/-- The whole part within the range of 64-bit integers, of which the low eight bits are kept. A
value beyond the range counts as the nearest end of it, and what is no number counts as 0. -/
def wrapToByte : Exact → UInt8
  | .notANumber => 0
  | .infinite negative => if negative then 0 else 255
  | .finite negative mantissa exponent =>
    let n := truncate negative mantissa exponent
    let bound : Int := Nat.pow 2 63
    let n := if n < -bound then -bound else if bound ≤ n then bound - 1 else n
    UInt8.ofNat (n % 256).toNat

end Exact

/-! ## Rounding to a format -/

namespace Binary

/-- The quotient `num / den` to the nearest whole number, a half going to the even neighbour. -/
def divideToEven (num den : Nat) : Nat :=
  let whole := num / den
  let twice := 2 * (num % den)
  if twice < den then whole
  else if den < twice then whole + 1
  else if whole % 2 = 0 then whole
  else whole + 1

/-- The exponent of the last place in which `num / den` is written with the format's precision: it
leaves a whole part below `2^precision` that is as long as the format allows. -/
def lastPlace (f : Binary) (num den : Nat) : Int :=
  let guess : Int := (num.log2 : Int) - den.log2 - f.precision
  -- The sizes in bits fix the quotient up to a factor of two, so the guess is right or one too low.
  let (top, unit) :=
    if 0 ≤ guess then (num, den * Nat.pow 2 guess.toNat) else (num * Nat.pow 2 (-guess).toNat, den)
  max f.minExponent (if top / unit < Nat.pow 2 f.precision then guess else guess + 1)

/-- The bits of the number of the format nearest to `num / den`, infinity if that is beyond the
largest finite number. -/
def round (f : Binary) (num den : Nat) : Nat :=
  if num = 0 then 0
  else
    let q := f.lastPlace num den
    let m := if 0 ≤ q then divideToEven num (den * Nat.pow 2 q.toNat)
      else divideToEven (num * Nat.pow 2 (-q).toNat) den
    -- Numbers of one sign are ordered like their bits: a mantissa rounded up to the next power of
    -- two carries over into the exponent field by itself.
    min f.infinityBits ((q - f.minExponent).toNat * f.exponentUnit + m)

end Binary

/-- The double nearest to a signed fraction. -/
def toFloat (negative : Bool) (num den : Nat) : Float :=
  let bits := Binary.double.round num den
  Float.ofBits (UInt64.ofNat (if negative then Binary.double.signBits + bits else bits))

/-- The single nearest to a double. -/
def narrow (x : Float) : Float32 :=
  match Exact.ofFloat x with
  | .notANumber => Float32.ofBits 0x7FC00000
  | .infinite negative => bits negative Binary.single.infinityBits
  | .finite negative mantissa exponent =>
    let (num, den) := scaleByTwo mantissa exponent
    bits negative (Binary.single.round num den)
where
  bits (negative : Bool) (magnitude : Nat) : Float32 :=
    Float32.ofBits
      (UInt32.ofNat (if negative then Binary.single.signBits + magnitude else magnitude))

end AltRender.Decimal

import AltRender.Decimal.Binary

/-!
# `Decimal/Shortest` — the fewest digits that read back

A floating-point number stands for all reals that round to it, an interval with the number inside.
The decimal to print is the one with the fewest digits in that interval, and the nearest of those.
On the grid of decimals with `n` digits only the two neighbours of the number need a look: if any
point of the grid lies in the interval, one of the neighbours does. So the search tries 1, 2, … 17
digits and stops at the first grid with a neighbour inside; seventeen digits always suffice for a
double.

The ends of the interval belong to it exactly if the mantissa is even, because a tie rounds to even.
Everything is compared as fractions of natural numbers.

A number can lie exactly midway between two such decimals (631821752499626.25 between …6.2 and
…6.3). Which of the two is taken then is up to the format that asks.
-/

set_option autoImplicit false

namespace AltRender.Decimal

/-- A decimal number without sign: `digits · 10^exponent`. -/
structure Scaled where
  digits : Nat
  exponent : Int
  deriving DecidableEq, Repr

/-- Which of two decimals is taken if a number lies midway between them. -/
inductive Tie where
  /-- The greater one. -/
  | up
  /-- The one whose last digit is even. -/
  | even
  deriving DecidableEq, Repr

/-- The one of two neighbours that a tie goes to, by the lower one. -/
def Tie.choose (tie : Tie) (below : Nat) : Nat :=
  match tie with
  | .up => below + 1
  | .even => below + below % 2

/-! ## The interval of a number -/

/-- The reals that round to a positive number, as numerators over one denominator. -/
structure Interval where
  low : Nat
  value : Nat
  high : Nat
  denominator : Nat
  closed : Bool

/-- The interval that rounds to `mantissa · 2^exponent` in a format. Below a power of two the
numbers lie twice as dense, so there the lower half of the interval is half as long. -/
def Interval.around (f : Binary) (mantissa : Nat) (exponent : Int) : Interval :=
  let step := if mantissa = f.exponentUnit ∧ f.minExponent < exponent then 1 else 2
  let (unit, den) := scaleByTwo 1 (exponent - 2)
  ⟨(4 * mantissa - step) * unit, 4 * mantissa * unit, (4 * mantissa + 2) * unit, den,
    mantissa % 2 = 0⟩

/-- Whether `digits · 10^exponent` rounds to the number. -/
def Interval.contains (i : Interval) (digits : Nat) (exponent : Int) : Bool :=
  let (x, low, high) :=
    if 0 ≤ exponent then (digits * Nat.pow 10 exponent.toNat * i.denominator, i.low, i.high)
    else
      let scale := Nat.pow 10 (-exponent).toNat
      (digits * i.denominator, i.low * scale, i.high * scale)
  if i.closed then low ≤ x && x ≤ high else low < x && x < high

/-! ## The search -/

/-- How many digits a natural number has before the point; 0 has none. -/
def digitCount (n : Nat) : Nat :=
  if n = 0 then 0 else digitCount (n / 10) + 1
termination_by n

/-- The least `k` from `k₀` on with `den ≤ num · 10^k`, of at most `fuel` candidates. -/
def leadingZeros (num den : Nat) : Nat → Nat → Nat
  | 0, k => k
  | fuel + 1, k => if den ≤ num * Nat.pow 10 k then k else leadingZeros num den fuel (k + 1)

/-- The exponent `k` with `10^(k-1) ≤ num / den < 10^k`. The size in bits bounds how many zeros can
follow the point. -/
def magnitude (num den : Nat) : Int :=
  if den ≤ num then digitCount (num / den)
  else 1 - (leadingZeros num den (den.log2 + 1) 1 : Nat)

/-- The decimal of the grid `10^exponent` nearest to the number among those that read back. -/
def Interval.onGrid (i : Interval) (tie : Tie) (exponent : Int) : Option Nat :=
  let (num, den) :=
    if 0 ≤ exponent then (i.value, i.denominator * Nat.pow 10 exponent.toNat)
    else (i.value * Nat.pow 10 (-exponent).toNat, i.denominator)
  let below := num / den
  -- The number lies between these two, so no other decimal of the grid can be nearer.
  match i.contains below exponent, i.contains (below + 1) exponent with
  | true, true =>
    if 2 * (num % den) < den then some below
    else if den < 2 * (num % den) then some (below + 1)
    else some (tie.choose below)
  | true, false => some below
  | false, true => some (below + 1)
  | false, false => none

/-- The first grid, from `n` digits on, with a decimal that reads back. -/
def Interval.search (i : Interval) (tie : Tie) (top : Int) : Nat → Nat → Scaled
  | 0, n =>
    let exponent := top - n
    ⟨(i.onGrid tie exponent).getD 0, exponent⟩
  | fuel + 1, n =>
    let exponent := top - n
    match i.onGrid tie exponent with
    | some digits => ⟨digits, exponent⟩
    | none => search i tie top fuel (n + 1)

def Scaled.strip (d : Scaled) : Scaled :=
  if d.digits ≠ 0 ∧ d.digits % 10 = 0 then strip ⟨d.digits / 10, d.exponent + 1⟩ else d
termination_by d.digits
decreasing_by all_goals omega

/-- **The shortest decimal that rounds to `mantissa · 2^exponent`,** the nearest of those; zero for
zero. -/
def shortest (f : Binary) (tie : Tie) (mantissa : Nat) (exponent : Int) : Scaled :=
  if mantissa = 0 then ⟨0, 0⟩
  else
    let i := Interval.around f mantissa exponent
    -- Seventeen digits are enough for a double, and the search starts with one.
    (i.search tie (magnitude i.value i.denominator) 16 1).strip

end AltRender.Decimal

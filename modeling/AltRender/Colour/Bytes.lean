import AltRender.Colour
import AltRender.Text.Bytes

/-!
# `Colour/Bytes` — colours read by their bytes

Once the blanks and the `#` of a text are gone and the rest is nothing but digits, each component
can be cut out by its offset in bytes, and its value be computed in a byte. This reader does so. A
cut that does not fit the text, a part that is no number and a product that is no byte would each be
a *fault*, and every step is checked for it, so that a result means that there was none.

It gives what the reader by characters gives (`Proofs/Colour`), with no fault for any text. The plus
sign is the one thing in which a number is more than digits; as a text with a plus sign in it has
been refused before, it is never met.
-/

set_option autoImplicit false

namespace AltRender.Colour.Bytes

open AltRender.Text

/-- What must not happen on the way to a colour. -/
inductive Fault where
  | slip (slip : Slip)
  /-- What was cut out is no number, or none that a byte can hold. -/
  | noNumber (part : String)
  /-- A component is larger than a byte. -/
  | overflow (component : Nat)
  deriving DecidableEq, Repr

/-- What is left of a text without the blanks around it and without any `#` before it. -/
def bare (text : String) : List Char :=
  (trim text.toList).dropWhile (· == '#')

/-- The byte that a number in hexadecimal digits writes. There may be a plus sign before them. -/
def number? (part : List Char) : Option UInt8 := do
  let digits := if part.head? = some '+' then part.tail else part
  let values ← digits.mapM hexValue?
  let n := values.foldl (fun n value => n * 16 + value) 0
  if digits.isEmpty || 256 ≤ n then none else some (UInt8.ofNat n)

def numberAt (digits : String) (start stop : Nat) : Except Fault UInt8 :=
  match slice digits start stop with
  | .error slip => .error (.slip slip)
  | .ok part =>
    match number? part.toList with
    | none => .error (.noNumber part)
    | some b => .ok b

/-- The component that the digit at an offset writes alone, as if it stood there twice. -/
def short (digits : String) (i : Nat) : Except Fault UInt8 := do
  let b ← numberAt digits i (i + 1)
  if b.toNat * 17 < 256 then return b * 17 else throw (.overflow (b.toNat * 17))

/-- The component that two digits write. -/
def long (digits : String) (i : Nat) : Except Fault UInt8 :=
  numberAt digits i (i + 2)

def ofDigits (digits : String) : Except Fault (Except Unreadable Colour) := do
  match (utf8 digits.toList).length with
  | 3 => return .ok (solid (← short digits 0) (← short digits 1) (← short digits 2))
  | 4 => return .ok ⟨← short digits 0, ← short digits 1, ← short digits 2, ← short digits 3⟩
  | 6 => return .ok (solid (← long digits 0) (← long digits 2) (← long digits 4))
  | 8 => return .ok ⟨← long digits 0, ← long digits 2, ← long digits 4, ← long digits 6⟩
  | count => return .error (.wrongLength count)

/-- **The colour a text writes,** by its bytes. -/
def ofHex (text : String) : Except Fault (Except Unreadable Colour) :=
  if (bare text).all fun c => (hexValue? c).isSome then ofDigits (String.ofList (bare text))
  else return .error (.notHexadecimal (String.ofList (bare text)))

end AltRender.Colour.Bytes

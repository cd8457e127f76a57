import AltRender.Text.Blank
import AltRender.Text.Letters

/-!
# `Colour` — colours and their hexadecimal form

A colour is written with three, four, six or eight hexadecimal digits, any number of `#` before them
and blanks around it. With three or four digits each digit stands for a pair of itself; a missing
fourth component is full opacity. It is printed with capital digits and without the opacity where
that is full, so the printed form depends on the colour alone.

A text that is no colour is refused as a whole: for having anything but digits in it, or else for
their number. Whoever asks for a colour may then fall back to another one; the reader itself knows
of no default.
-/

set_option autoImplicit false

namespace AltRender

open AltRender.Text

/-- A colour with opacity, a byte each. -/
structure Colour where
  red : UInt8
  green : UInt8
  blue : UInt8
  alpha : UInt8
  deriving DecidableEq, Repr, Inhabited

namespace Colour

/-- An opaque colour. -/
def solid (red green blue : UInt8) : Colour := ⟨red, green, blue, 255⟩

/-- What is wrong with a text that is no colour: a character that is no hexadecimal digit, or a
wrong number of digits. -/
inductive Unreadable where
  | notHexadecimal (digits : String)
  | wrongLength (count : Nat)
  deriving DecidableEq, Repr

def Unreadable.message : Unreadable → String
  | .notHexadecimal digits => s!"Invalid hex color '{digits}'"
  | .wrongLength count =>
    s!"Invalid hex color format: expected 3, 4, 6, or 8 characters, got {count}"

/-- The byte that two hexadecimal digits write. -/
private def pair (high low : Nat) : UInt8 :=
  UInt8.ofNat (high * 16 + low)

def ofDigits : List Nat → Except Unreadable Colour
  | [r, g, b] => .ok (solid (pair r r) (pair g g) (pair b b))
  | [r, g, b, a] => .ok ⟨pair r r, pair g g, pair b b, pair a a⟩
  | [r, r', g, g', b, b'] => .ok (solid (pair r r') (pair g g') (pair b b'))
  | [r, r', g, g', b, b', a, a'] => .ok ⟨pair r r', pair g g', pair b b', pair a a'⟩
  | digits => .error (.wrongLength digits.length)

/-- **The colour a text writes.** -/
def ofHex (text : String) : Except Unreadable Colour :=
  let digits := (trim text.toList).dropWhile (· == '#')
  match digits.mapM hexValue? with
  | none => .error (.notHexadecimal (String.ofList digits))
  | some values => ofDigits values

/-- The hexadecimal form: `#RRGGBB`, with the opacity after it unless that is full. -/
def toHex (c : Colour) : String :=
  let opacity := if c.alpha = 255 then [] else hexByte true c.alpha
  String.ofList
    ('#' :: hexByte true c.red ++ hexByte true c.green ++ hexByte true c.blue ++ opacity)

end Colour

end AltRender

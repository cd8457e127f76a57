import AltRender.Colour
import AltRender.Decimal.Layout
import AltRender.Picture.Basic

/-!
# `Filter/Cutout` — making a background transparent

A pixel is cut out if all three of its channels lie strictly on one side of the limits: darker, to
remove a dark background, or brighter, to remove a light one. What is cut out becomes transparent
black, and everything else, opacity included, stays untouched. A limit is one number for all
channels or a colour, of which the opacity plays no part.

Being on the limit is not being beyond it. The test looks at the colour alone, so a pixel that is
transparent already may be cut out once more, which changes its colour to black and nothing that can
be seen.
-/

set_option autoImplicit false

namespace AltRender.Cutout

open AltRender.Decimal

inductive Threshold where
  | uniform (limit : Float)
  | colour (c : Colour)

namespace Threshold

/-- The limit of each channel. -/
def limits : Threshold → Float × Float × Float
  | .uniform limit => (limit, limit, limit)
  | .colour c => (c.red.toFloat, c.green.toFloat, c.blue.toFloat)

/-- The limits as a signature shows them: a number, or the colour without its opacity. -/
def text : Threshold → String
  | .uniform limit => plainText limit
  | .colour c => (Colour.solid c.red c.green c.blue).toHex

end Threshold

/-- The side of the limits that is cut out. -/
inductive Side where
  | below
  | above
  deriving DecidableEq, Repr

def Side.word : Side → String
  | .below => "below"
  | .above => "above"

/-- Whether a colour is cut out. -/
def removes (threshold : Threshold) (side : Side) (c : Rgb UInt8) : Bool :=
  let (r, g, b) := threshold.limits
  match side with
  | .below => c.red.toFloat < r && c.green.toFloat < g && c.blue.toFloat < b
  | .above => r < c.red.toFloat && g < c.green.toFloat && b < c.blue.toFloat

def nothing : Rgba UInt8 := ⟨0, 0, 0, 0⟩

/-- A pixel, or nothing if its colour is cut out. -/
def cutPixel (threshold : Threshold) (side : Side) (p : Rgba UInt8) : Rgba UInt8 :=
  if removes threshold side p.colour then nothing else p

/-- **The picture with opacity, without the pixels on one side of the limits.** -/
def cutOut (threshold : Threshold) (side : Side) (p : Picture) : Picture :=
  .ofRgba (p.toRgba.map (cutPixel threshold side))

end AltRender.Cutout

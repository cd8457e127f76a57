import AltRender.Decimal.Binary
import AltRender.Picture.Basic

/-!
# `Filter/Sharpening` — a pixel against its neighbours

Sharpening weighs a pixel with `1 + 8a` and each of its eight neighbours with `-a`. The weights sum
to one, so even areas keep their brightness. Sums are made in single precision, row by row from the
top left, then rounded and clamped. The outermost pixels have no full neighbourhood and stay as they
are, and so does all opacity.

The sums are single precision because the weights are, and so the order of the nine products matters
for the last bit. A picture with fewer than three columns or rows has no inner pixel, and is only
brought into its working form.
-/

set_option autoImplicit false

namespace AltRender.Sharpening

open AltRender.Decimal

/-- The weights of a pixel and its neighbours, row by row. -/
def kernel (amount : Float) : List Float32 :=
  let a := narrow amount
  let neighbour := -a
  let centre := 1.0 + 8.0 * a
  [neighbour, neighbour, neighbour, neighbour, centre, neighbour, neighbour, neighbour, neighbour]

/-- The weighted sum of samples, added from the first to the last. -/
def weightedSum (weights : List Float32) (samples : List UInt8) : Float32 :=
  (weights.zip samples).foldl (fun sum ws => sum + ws.2.toFloat32 * ws.1) 0.0

/-- The level nearest to a sum. -/
def level (sum : Float32) : UInt8 :=
  (Exact.ofFloat32 sum).toLevel

/-- The pixel at an inner position and its neighbours, row by row. -/
def neighbourhood {P : Type} (r : Raster P) (x y : Nat) : List P :=
  [(x - 1, y - 1), (x, y - 1), (x + 1, y - 1), (x - 1, y), (x, y), (x + 1, y),
    (x - 1, y + 1), (x, y + 1), (x + 1, y + 1)].filterMap fun place => r.at? place.1 place.2

def isInner {P : Type} (r : Raster P) (x y : Nat) : Bool :=
  0 < x && 0 < y && x + 1 < r.width && y + 1 < r.height

/-- The sharpened colour at an inner position. -/
def sharpColour (weights : List Float32) (r : Raster (Rgb UInt8)) (x y : Nat) : Rgb UInt8 :=
  let around := neighbourhood r x y
  ⟨level (weightedSum weights (around.map Rgb.red)),
    level (weightedSum weights (around.map Rgb.green)),
    level (weightedSum weights (around.map Rgb.blue))⟩

/-- **Every inner colour against its neighbours,** the outermost ones as they are. -/
def sharpenColours (weights : List Float32) (r : Raster (Rgb UInt8)) : Raster (Rgb UInt8) :=
  r.mapIdx fun i c =>
    let x := i % r.width
    let y := i / r.width
    if isInner r x y then sharpColour weights r x y else c

/-- **The normalized picture, sharpened.** Opacity takes no part. -/
def sharpen (amount : Float) (p : Picture) : Picture :=
  match p.toWorking with
  | .rgb r => .ofRgb (sharpenColours (kernel amount) r)
  | .rgba r =>
    .ofRgba (r.zipWith Rgba.withColour (sharpenColours (kernel amount) (r.map Rgba.colour)))

end AltRender.Sharpening

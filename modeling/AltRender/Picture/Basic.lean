import AltRender.Picture.Raster

/-!
# `Picture` — pictures and the two forms filters work on

A decoded picture has grey or coloured pixels, with or without opacity, in samples of 8 or 16 bits:
eight modes. Filters work on two of them only, 8-bit RGB and 8-bit RGBA; `toWorking` brings any
picture into the one that loses nothing but depth, and `toRgba` into the one with opacity. Depth
goes from 16 to 8 bits by rounding `v / 257`, grey is copied to the three colours, and a pixel
without opacity is opaque.

What `normalize` gives is one of the two working forms and stays as it is when normalized again; the
forms are ordered by what they hold, and no filter takes a picture down from one with opacity.
Pixels are compared by `toRgba`, which every mode has.
-/

set_option autoImplicit false

namespace AltRender

/-! ## Pixels -/

structure GreyAlpha (S : Type) where
  grey : S
  alpha : S
  deriving DecidableEq, Repr

structure Rgb (S : Type) where
  red : S
  green : S
  blue : S
  deriving DecidableEq, Repr

structure Rgba (S : Type) where
  red : S
  green : S
  blue : S
  alpha : S
  deriving DecidableEq, Repr

namespace Rgba

variable {S : Type}

/-- The colour of a pixel without its opacity. -/
def colour (p : Rgba S) : Rgb S := ⟨p.red, p.green, p.blue⟩

def withColour (p : Rgba S) (c : Rgb S) : Rgba S := ⟨c.red, c.green, c.blue, p.alpha⟩

@[simp] theorem colour_withColour (p : Rgba S) (c : Rgb S) : (p.withColour c).colour = c := rfl

@[simp] theorem alpha_withColour (p : Rgba S) (c : Rgb S) : (p.withColour c).alpha = p.alpha := rfl

@[simp] theorem withColour_colour (p : Rgba S) : p.withColour p.colour = p := rfl

end Rgba

/-- The colour with full opacity. -/
def Rgb.solid (c : Rgb UInt8) : Rgba UInt8 := ⟨c.red, c.green, c.blue, 255⟩

/-! ## Pictures -/

/-- A picture in samples of one size. -/
inductive Bitmap (S : Type) where
  | grey (r : Raster S)
  | greyAlpha (r : Raster (GreyAlpha S))
  | rgb (r : Raster (Rgb S))
  | rgba (r : Raster (Rgba S))

namespace Bitmap

variable {S : Type}

def width : Bitmap S → Nat
  | .grey r => r.width
  | .greyAlpha r => r.width
  | .rgb r => r.width
  | .rgba r => r.width

def height : Bitmap S → Nat
  | .grey r => r.height
  | .greyAlpha r => r.height
  | .rgb r => r.height
  | .rgba r => r.height

def hasAlpha : Bitmap S → Bool
  | .greyAlpha _ | .rgba _ => true
  | .grey _ | .rgb _ => false

/-- The samples of all pixels, row by row. -/
def samples : Bitmap S → List S
  | .grey r => r.pixels.toList
  | .greyAlpha r => r.pixels.toList.flatMap fun p => [p.grey, p.alpha]
  | .rgb r => r.pixels.toList.flatMap fun p => [p.red, p.green, p.blue]
  | .rgba r => r.pixels.toList.flatMap fun p => [p.red, p.green, p.blue, p.alpha]

def mapSamples {T : Type} (f : S → T) : Bitmap S → Bitmap T
  | .grey r => .grey (r.map f)
  | .greyAlpha r => .greyAlpha (r.map fun p => ⟨f p.grey, f p.alpha⟩)
  | .rgb r => .rgb (r.map fun p => ⟨f p.red, f p.green, f p.blue⟩)
  | .rgba r => .rgba (r.map fun p => ⟨f p.red, f p.green, f p.blue, f p.alpha⟩)

/-- The colours of an 8-bit picture; opacity is dropped. -/
def toRgb : Bitmap UInt8 → Raster (Rgb UInt8)
  | .grey r => r.map fun v => ⟨v, v, v⟩
  | .greyAlpha r => r.map fun p => ⟨p.grey, p.grey, p.grey⟩
  | .rgb r => r
  | .rgba r => r.map Rgba.colour

/-- The colours and the opacity of an 8-bit picture; where there is none it is full. -/
def toRgba : Bitmap UInt8 → Raster (Rgba UInt8)
  | .grey r => r.map fun v => ⟨v, v, v, 255⟩
  | .greyAlpha r => r.map fun p => ⟨p.grey, p.grey, p.grey, p.alpha⟩
  | .rgb r => r.map Rgb.solid
  | .rgba r => r

end Bitmap

/-- A picture in one of the eight modes. -/
inductive Picture where
  | shallow (b : Bitmap UInt8)
  | deep (b : Bitmap UInt16)

namespace Picture

/-- A 16-bit sample in 8 bits: `v / 257`, rounded. -/
def toShallowSample (v : UInt16) : UInt8 :=
  UInt8.ofNat ((v.toNat + 128) / 257)

/-- The picture in 8-bit samples, its mode otherwise unchanged. -/
def toShallow : Picture → Bitmap UInt8
  | .shallow b => b
  | .deep b => b.mapSamples toShallowSample

def width : Picture → Nat
  | .shallow b => b.width
  | .deep b => b.width

def height : Picture → Nat
  | .shallow b => b.height
  | .deep b => b.height

def hasAlpha : Picture → Bool
  | .shallow b => b.hasAlpha
  | .deep b => b.hasAlpha

def ofRgb (r : Raster (Rgb UInt8)) : Picture := .shallow (.rgb r)

def ofRgba (r : Raster (Rgba UInt8)) : Picture := .shallow (.rgba r)

/-- The colours and the opacity of any picture, 8 bits each. -/
def toRgba (p : Picture) : Raster (Rgba UInt8) :=
  p.toShallow.toRgba

/-! ## The working forms -/

/-- The two forms that filters work on. -/
inductive Working where
  | rgb (r : Raster (Rgb UInt8))
  | rgba (r : Raster (Rgba UInt8))

/-- The picture of a working form. -/
def ofWorking : Working → Picture
  | .rgb r => ofRgb r
  | .rgba r => ofRgba r

/-- The working form of a picture: with opacity if the picture has it. -/
def toWorking (p : Picture) : Working :=
  match p.toShallow with
  | .rgb r => .rgb r
  | .rgba r => .rgba r
  | .grey r => .rgb (Bitmap.grey r).toRgb
  | .greyAlpha r => .rgba (Bitmap.greyAlpha r).toRgba

/-- **The picture in 8-bit RGB, or RGBA if it has opacity.** -/
def normalize (p : Picture) : Picture :=
  ofWorking p.toWorking

/-- The picture in 8-bit RGBA. -/
def ensureAlpha (p : Picture) : Picture :=
  ofRgba p.toRgba

/-- The normalized picture with every colour changed and all opacity kept. The change is told the
index of the pixel and how many samples the pixel has. -/
def mapColoursIdx (f : Nat → Nat → Rgb UInt8 → Rgb UInt8) (p : Picture) : Picture :=
  match p.toWorking with
  | .rgb r => ofRgb (r.mapIdx fun i c => f i 3 c)
  | .rgba r => ofRgba (r.mapIdx fun i q => q.withColour (f i 4 q.colour))

/-- **The normalized picture with every colour changed on its own and all opacity kept.** -/
def mapColours (f : Rgb UInt8 → Rgb UInt8) (p : Picture) : Picture :=
  match p.toWorking with
  | .rgb r => ofRgb (r.map f)
  | .rgba r => ofRgba (r.map fun q => q.withColour (f q.colour))

@[simp] theorem toWorking_ofWorking (w : Working) : (ofWorking w).toWorking = w := by
  cases w <;> rfl

end Picture

end AltRender

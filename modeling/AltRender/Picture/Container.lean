import AltRender.Picture.Checksum
import AltRender.Picture.Codec

/-!
# `Picture/Container` — a codec that does not compress

A file in the Portable Network Graphics form is a signature and then chunks: one with the shape of
the picture, one with its samples, one that marks the end. Samples go row by row behind a zero that
says that the row is not transformed, one byte for 8 bits and two, the high one first, for 16. Here
they are packed in blocks that are not compressed, which the form allows.

`ofContainer?` reads what `toContainer` writes and nothing else. It builds the picture that the
bytes would be of and compares the whole file, so neither the checksums nor the parts that are
always the same have to be looked at one by one, and what is read has exactly the bytes it was read
from (`toContainer_eq_of_ofContainer?`).

The codec made of the two (`Codec.container`) stands in where one is needed that can be run. Sizes
have four bytes, so a picture that is larger than that is not written.
-/

set_option autoImplicit false

namespace AltRender

namespace Picture

/-! ## Numbers and chunks -/

/-- A number in four bytes, the highest first. -/
def bigEndian (n : Nat) : List UInt8 :=
  [UInt8.ofNat (n / 16777216), UInt8.ofNat (n / 65536), UInt8.ofNat (n / 256), UInt8.ofNat n]

/-- A number in two bytes, the lowest first. -/
def littleEndian (n : Nat) : List UInt8 :=
  [UInt8.ofNat n, UInt8.ofNat (n / 256)]

def ascii (s : String) : List UInt8 :=
  s.toList.map fun c => UInt8.ofNat c.toNat

/-- A chunk: the length of its body, its name, the body, and a checksum of name and body. -/
def chunk (name : String) (body : List UInt8) : List UInt8 :=
  bigEndian body.length ++ ascii name ++ body ++ bigEndian (crc (ascii name ++ body)).toNat

/-- What every file starts with. -/
def fileStart : List UInt8 :=
  [0x89, 0x50, 0x4E, 0x47, 0x0D, 0x0A, 0x1A, 0x0A]

/-! ## Kinds of pixel -/

/-- The kinds of pixel. -/
inductive PixelKind where
  | grey
  | greyAlpha
  | rgb
  | rgba
  deriving DecidableEq, Repr

namespace PixelKind

def all : List PixelKind := [.grey, .greyAlpha, .rgb, .rgba]

def depth : PixelKind → Nat
  | .grey => 1
  | .greyAlpha => 2
  | .rgb => 3
  | .rgba => 4

def code : PixelKind → UInt8
  | .grey => 0
  | .greyAlpha => 4
  | .rgb => 2
  | .rgba => 6

end PixelKind

def pixelKind {S : Type} : Bitmap S → PixelKind
  | .grey _ => .grey
  | .greyAlpha _ => .greyAlpha
  | .rgb _ => .rgb
  | .rgba _ => .rgba

def kind : Picture → PixelKind
  | .shallow b => pixelKind b
  | .deep b => pixelKind b

/-! ## Samples as bytes -/

def sampleSize : Picture → Nat
  | .shallow _ => 1
  | .deep _ => 2

/-- The bytes of 16-bit samples, the high byte first. -/
def deepBytes (samples : List UInt16) : List UInt8 :=
  samples.flatMap fun v => [UInt8.ofNat (v.toNat / 256), UInt8.ofNat (v.toNat % 256)]

/-- The bytes of all samples, row by row. -/
def sampleBytes : Picture → List UInt8
  | .shallow b => b.samples
  | .deep b => deepBytes b.samples

/-- Rows of a number of bytes each, every one behind a zero. -/
def scanlines (stride : Nat) : Nat → List UInt8 → List UInt8
  | 0, _ => []
  | rows + 1, bytes => 0 :: bytes.take stride ++ scanlines stride rows (bytes.drop stride)

/-! ## Packing -/

/-- How many bytes a block can hold. -/
def blockLimit : Nat := 65535

/-- A block that is not compressed: whether it is the last one, its length, the length's complement,
and its contents. -/
def block (last : Bool) (bytes : List UInt8) : List UInt8 :=
  (if last then 1 else 0) :: littleEndian bytes.length ++ littleEndian (65535 - bytes.length) ++
    bytes

/-- Bytes in blocks, each as full as it can be. -/
def blocks (bytes : List UInt8) : List UInt8 :=
  if bytes.length ≤ blockLimit then block true bytes
  else block false (bytes.take blockLimit) ++ blocks (bytes.drop blockLimit)
termination_by bytes.length
decreasing_by
  simp only [List.length_drop, blockLimit]
  simp only [blockLimit] at *
  omega

/-- Packed bytes: a start, the blocks, and a checksum of what is in them. -/
def packed (bytes : List UInt8) : List UInt8 :=
  [0x78, 0x01] ++ blocks bytes ++ bigEndian (adler bytes).toNat

/-! ## Writing -/

/-- The shape of a picture: its sizes, the bits of a sample, the kind of pixel, and three zeros for
the usual way to pack, to transform rows and to order them. -/
def shapeBytes (p : Picture) : List UInt8 :=
  bigEndian p.width ++ bigEndian p.height ++ [UInt8.ofNat (8 * p.sampleSize), p.kind.code, 0, 0, 0]

/-- A picture as a file. -/
def toContainer (p : Picture) : List UInt8 :=
  let stride := p.width * p.kind.depth * p.sampleSize
  fileStart ++ chunk "IHDR" (shapeBytes p) ++
    chunk "IDAT" (packed (scanlines stride p.height p.sampleBytes)) ++
    chunk "IEND" []

/-! ## Reading -/

/-- The number in four bytes, the highest first. -/
def numberOf (a b c d : UInt8) : Nat :=
  ((a.toNat * 256 + b.toNat) * 256 + c.toNat) * 256 + d.toNat

/-- What the blocks hold, up to the last one. -/
def unblock : Nat → List UInt8 → List UInt8
  | 0, _ => []
  -- The complement of the length and all checksums are left to the comparison in `ofContainer?`.
  | n + 1, last :: low :: high :: _ :: _ :: rest =>
    let length := low.toNat + high.toNat * 256
    rest.take length ++ if last = 1 then [] else unblock n (rest.drop length)
  | _ + 1, _ => []

/-- The rows without the zeros before them. -/
def unscan (stride : Nat) : Nat → List UInt8 → List UInt8
  | rows + 1, _ :: bytes => bytes.take stride ++ unscan stride rows (bytes.drop stride)
  | _, _ => []

/-- 16-bit samples from their bytes. -/
def deepSamples? : List UInt8 → Option (List UInt16)
  | [] => some []
  | [_] => none
  | high :: low :: rest =>
    (deepSamples? rest).map (UInt16.ofNat (high.toNat * 256 + low.toNat) :: ·)

def greyAlphaPixels? {S : Type} : List S → Option (List (GreyAlpha S))
  | [] => some []
  | v :: a :: rest => (greyAlphaPixels? rest).map (⟨v, a⟩ :: ·)
  | _ => none

def rgbPixels? {S : Type} : List S → Option (List (Rgb S))
  | [] => some []
  | r :: g :: b :: rest => (rgbPixels? rest).map (⟨r, g, b⟩ :: ·)
  | _ => none

def rgbaPixels? {S : Type} : List S → Option (List (Rgba S))
  | [] => some []
  | r :: g :: b :: a :: rest => (rgbaPixels? rest).map (⟨r, g, b, a⟩ :: ·)
  | _ => none

/-- A bitmap of a kind and shape from its samples, if their number fits. -/
def bitmapOf? {S : Type} (kind : PixelKind) (width height : Nat) (samples : List S) :
    Option (Bitmap S) :=
  match kind with
  | .grey => (Raster.ofList? width height samples).map .grey
  | .greyAlpha => (greyAlphaPixels? samples).bind fun ps =>
    (Raster.ofList? width height ps).map .greyAlpha
  | .rgb => (rgbPixels? samples).bind fun ps => (Raster.ofList? width height ps).map .rgb
  | .rgba => (rgbaPixels? samples).bind fun ps => (Raster.ofList? width height ps).map .rgba

/-- A picture of a kind and shape from the bytes of its samples. -/
def ofSampleBytes? (kind : PixelKind) (deep : Bool) (width height : Nat) (bytes : List UInt8) :
    Option Picture :=
  if deep then (deepSamples? bytes).bind fun samples =>
    (bitmapOf? kind width height samples).map .deep
  else (bitmapOf? kind width height bytes).map .shallow

def shapeOffset : Nat := 16

def blocksOffset : Nat := 43

/-- The picture that the bytes hold if they were written as one. -/
def candidate? (bytes : List UInt8) : Option Picture :=
  match bytes.drop shapeOffset with
  | a :: b :: c :: d :: a' :: b' :: c' :: d' :: bits :: code :: _ => do
    let kind ← PixelKind.all.find? fun k => k.code = code
    let deep := bits = 16
    let width := numberOf a b c d
    let height := numberOf a' b' c' d'
    let stride := width * kind.depth * (if deep then 2 else 1)
    let rows := unblock bytes.length (bytes.drop blocksOffset)
    if rows.length = height * (stride + 1) then
      ofSampleBytes? kind deep width height (unscan stride height rows)
    else none
  | _ => none

/-- The picture that the bytes hold, if they were written as one. -/
def ofContainer? (bytes : List UInt8) : Option Picture :=
  (candidate? bytes).filter fun p => p.toContainer = bytes

/-- **What is read has exactly the bytes it was read from.** -/
theorem toContainer_eq_of_ofContainer? {bytes : List UInt8} {p : Picture}
    (h : ofContainer? bytes = some p) : p.toContainer = bytes := by
  unfold ofContainer? at h
  have := (Option.filter_eq_some_iff.mp h).2
  simpa using this

end Picture

/-! ## The codec -/

/-- **The codec of these files.** -/
def Codec.container : Codec where
  decode bytes :=
    match Picture.ofContainer? bytes with
    | some p => .ok p
    | none => .error "The image format could not be determined"
  encode p :=
    if p.width < UInt32.size ∧ p.height < UInt32.size then .ok p.toContainer
    else .error "The picture is too large"

end AltRender

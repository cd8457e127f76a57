import AltRender.Decimal.Binary
import AltRender.Picture.Basic

/-!
# `Filter/Tone` — filters that change each channel by a curve

Inverting takes the complement of a channel. Contrast bends it along `x + (1 - x) · amount · x` on
the unit interval; the result is not clamped but cut to a whole number and taken modulo 256, so a
large amount folds bright values back into the dark end. Opacity stays as it is.

A curve is a function of one byte, applied to the three colours of every pixel alike; so these
filters know nothing of their neighbours, of each other's channels or of the theme. The complement
is its own inverse (`complement_complement`).
-/

set_option autoImplicit false

namespace AltRender.Tone

open AltRender.Decimal

/-- Every channel of a colour through one curve. -/
def onChannels (curve : UInt8 → UInt8) (c : Rgb UInt8) : Rgb UInt8 :=
  ⟨curve c.red, curve c.green, curve c.blue⟩

def complement (v : UInt8) : UInt8 := 255 - v

theorem complement_complement (v : UInt8) : complement (complement v) = v := by
  apply UInt8.toNat_inj.mp
  have h := v.toNat_lt
  simp only [complement, UInt8.toNat_sub]
  have : (255 : UInt8).toNat = 255 := rfl
  omega

/-- The channel on the contrast curve of an amount. -/
def bend (amount : Float) (v : UInt8) : UInt8 :=
  let x := v.toFloat / 255.0
  let scaled := (x + (1.0 - x) * amount * x) * 255.0
  (Exact.ofFloat scaled).wrapToByte

def invert (p : Picture) : Picture :=
  p.mapColours (onChannels complement)

/-- The picture with its colours on the contrast curve of an amount. -/
def contrast (amount : Float) (p : Picture) : Picture :=
  p.mapColours (onChannels (bend amount))

end AltRender.Tone

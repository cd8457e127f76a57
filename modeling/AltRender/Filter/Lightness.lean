import AltRender.Decimal.Binary
import AltRender.Picture.Basic

/-!
# `Filter/Lightness` — hue, saturation and lightness

Brightening works on the lightness of a colour: the colour is taken to hue (in degrees), saturation
and lightness (in percent), the lightness is multiplied and capped at 100, and the colour is taken
back. A colour with three equal channels is grey: it has hue and saturation zero. Where two channels
share the maximum, red goes before green and green before blue.

All of it is worked out in doubles, in the order in which it is written here, since every step
rounds: the results are those of this order and no other. The last step rounds to a byte, away from
zero where it is half way.
-/

set_option autoImplicit false

namespace AltRender.Lightness

open AltRender.Decimal

structure Hsl where
  hue : Float
  saturation : Float
  lightness : Float

def larger (x y : Float) : Float := if x < y then y else x

def smaller (x y : Float) : Float := if y < x then y else x

/-- A full turn counts as none. -/
def wrapTurn (degrees : Float) : Float :=
  let degrees := if 360.0 ≤ degrees then degrees - 360.0 else degrees
  if degrees < 0.0 then degrees + 360.0 else degrees

/-- **The hue, saturation and lightness of a colour.** -/
def ofRgb (c : Rgb UInt8) : Hsl :=
  let r := c.red.toFloat / 255.0
  let g := c.green.toFloat / 255.0
  let b := c.blue.toFloat / 255.0
  let top := larger (larger r g) b
  let bottom := smaller (smaller r g) b
  let lightness := (top + bottom) / 2.0 * 100.0
  -- A grey has neither hue nor saturation.
  if top == bottom then ⟨0.0, 0.0, lightness⟩
  else
    let d := top - bottom
    let saturation :=
      (if 50.0 < lightness then d / (2.0 - top - bottom) else d / (top + bottom)) * 100.0
    let sextant :=
      if top == r then (g - b) / d + (if g < b then 6.0 else 0.0)
      else if top == g then (b - r) / d + 2.0
      else (r - g) / d + 4.0
    ⟨wrapTurn (sextant * 60.0), saturation, lightness⟩

/-- One channel between the bounds `p` and `q`, at a place on the colour wheel of circumference
one. -/
def channelAt (p q place : Float) : Float :=
  let t := if place < 0.0 then place + 1.0 else place
  let t := if 1.0 < t then t - 1.0 else t
  if t < 1.0 / 6.0 then p + (q - p) * 6.0 * t
  else if t < 1.0 / 2.0 then q
  else if t < 2.0 / 3.0 then p + (q - p) * (2.0 / 3.0 - t) * 6.0
  else p

/-- The level of a channel on the unit interval, rounded and clamped. -/
def level (x : Float) : UInt8 :=
  (Exact.ofFloat (x * 255.0)).toLevel

/-- **The colour of a hue, saturation and lightness.** -/
def Hsl.toRgb (c : Hsl) : Rgb UInt8 :=
  let h := c.hue / 360.0
  let s := c.saturation / 100.0
  let l := c.lightness / 100.0
  if s == 0.0 then ⟨level l, level l, level l⟩
  else
    let q := if l < 0.5 then l * (1.0 + s) else l + s - l * s
    let p := 2.0 * l - q
    ⟨level (channelAt p q (h + 1.0 / 3.0)), level (channelAt p q h),
      level (channelAt p q (h - 1.0 / 3.0))⟩

/-- At most 100; what is no number counts as 100. -/
def capped (x : Float) : Float := if x < 100.0 then x else 100.0

/-- The colour with its lightness multiplied by an amount and capped. -/
def scale (amount : Float) (c : Rgb UInt8) : Rgb UInt8 :=
  let hsl := ofRgb c
  Hsl.toRgb { hsl with lightness := capped (hsl.lightness * amount) }

/-- The picture with the lightness of all its colours multiplied by an amount and capped. -/
def boost (amount : Float) (p : Picture) : Picture :=
  p.mapColours (scale amount)

end AltRender.Lightness

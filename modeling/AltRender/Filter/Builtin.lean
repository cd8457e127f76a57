import AltRender.Filter.Basic
import AltRender.Filter.Cutout
import AltRender.Filter.Lightness
import AltRender.Filter.Sharpening
import AltRender.Filter.Tone
import AltRender.Value

/-!
# `Filter/Builtin` — the filters every registry can start from

Five filters do one thing each, their *effect*; a sixth, `darkmode`, runs some of them after each
other and picks which by the theme. A filter is made from the arguments of its directive and never
fails to be made: an argument that is missing, or of another kind than the filter can use, counts as
the default.

How the effects are carried out stands in the modules before this one. Here it is said which of them
there are, what their parameters are called, and what they default to; the order of the parameters
in a signature is that of the fields.
-/

set_option autoImplicit false

namespace AltRender

open AltRender.Decimal AltRender.Text

/-! ## Effects -/

/-- A filter that does one thing. -/
inductive Effect where
  | invert
  | contrast (amount : Float)
  | boostLightness (amount : Float)
  | transparent (threshold : Cutout.Threshold) (side : Cutout.Side)
  | sharpness (amount : Float)

namespace Effect

def usualContrast : Float := 1.0

/-- The factor of the lightness where no amount is given. -/
def usualBoost : Float := 1.2

/-- The limit where no threshold is given, about a twentieth of full brightness. -/
def usualLimit : Float := 13.0

def usualSharpness : Float := 1.0

def name : Effect → String
  | .invert => "invert"
  | .contrast _ => "contrast"
  | .boostLightness _ => "boost-lightness"
  | .transparent .. => "transparent"
  | .sharpness _ => "sharpness"

def parameters : Effect → List (String × String)
  | .invert => []
  | .contrast amount => [("amount", plainText amount)]
  | .boostLightness amount => [("amount", plainText amount)]
  | .transparent threshold side => [("threshold", threshold.text), ("remove", side.word)]
  | .sharpness amount => [("amount", plainText amount)]

def signature (e : Effect) : String :=
  signatureText e.name e.parameters

/-- **What the effect does to a picture.** Only sharpening can fail, for want of a finite amount. -/
def applyTo (e : Effect) (p : Picture) : Except FilterFault Picture :=
  match e with
  | .invert => .ok (Tone.invert p)
  | .contrast amount => .ok (Tone.contrast amount p)
  | .boostLightness amount => .ok (Lightness.boost amount p)
  | .transparent threshold side => .ok (Cutout.cutOut threshold side p)
  | .sharpness amount =>
    if (Exact.ofFloat amount).isFinite then .ok (Sharpening.sharpen amount p)
    else .error (.unsupported e.signature "amount must be a finite number")

def apply (e : Effect) (f : Frame) : Except FilterFault Frame :=
  (e.applyTo f.picture).map fun p => { f with picture := p }

/-! ### Effects from arguments -/

private def amountOr (default : Float) (ps : Parameters) : Float :=
  (ps.number? "amount").getD default

/-- The threshold in the arguments: a number, or a text that is a colour. -/
def thresholdOf (ps : Parameters) : Cutout.Threshold :=
  match ps.get? "threshold" with
  | some (.number limit) => .uniform limit
  | some (.text text) =>
    match Colour.ofHex text with
    | .ok c => .colour c
    | .error _ => .uniform usualLimit
  | _ => .uniform usualLimit

/-- The side in the arguments: `above` in any case, and below otherwise. -/
def sideOf (ps : Parameters) : Cutout.Side :=
  match (ps.get? "remove").bind Value.text? with
  | some text => if lower text.toList = "above".toList then .above else .below
  | none => .below

def contrastOf (ps : Parameters) : Effect := .contrast (amountOr usualContrast ps)

def boostLightnessOf (ps : Parameters) : Effect := .boostLightness (amountOr usualBoost ps)

def transparentOf (ps : Parameters) : Effect := .transparent (thresholdOf ps) (sideOf ps)

def sharpnessOf (ps : Parameters) : Effect := .sharpness (amountOr usualSharpness ps)

end Effect

/-! ## The built-in filters -/

/-- A built-in filter: an effect, or the adaptation of a picture to the theme. -/
inductive Builtin where
  | effect (e : Effect)
  | darkmode

namespace Builtin

/-- The light background that is cut out under the light theme. -/
def lightBackground : Colour := Colour.solid 240 240 240

/-- The factor of the lightness under the light theme. -/
def lightBoost : Float := 0.85

/-- The effects that adapt a picture to a theme, in order. For the dark theme the picture is
inverted, its then dark background cut out and the rest brightened; for the light theme the light
background is cut out and the rest darkened a little. -/
def darkmodeSteps : Theme → List Effect
  | .dark =>
    [.invert, .transparent (.uniform Effect.usualLimit) .below, .boostLightness Effect.usualBoost]
  | .light => [.transparent (.colour lightBackground) .above, .boostLightness lightBoost]

def name : Builtin → String
  | .effect e => e.name
  | .darkmode => "darkmode"

/-- The name with all resolved parameters; the theme is none of them. -/
def signature : Builtin → String
  | .effect e => e.signature
  | .darkmode => "darkmode"

def apply (b : Builtin) (f : Frame) (theme : Option Theme) : Except FilterFault Frame :=
  match b with
  | .effect e => e.apply f
  | .darkmode => (darkmodeSteps (theme.getD Theme.usual)).foldlM (fun frame e => e.apply frame) f

def toFilter (b : Builtin) : Filter :=
  ⟨b.name, b.signature, b.apply⟩

/-- How built-in filters are made from arguments, by name, in the order of a new registry. -/
def makers : List (String × (Parameters → Builtin)) :=
  [("invert", fun _ => .effect .invert),
   ("contrast", fun ps => .effect (Effect.contrastOf ps)),
   ("boost-lightness", fun ps => .effect (Effect.boostLightnessOf ps)),
   ("transparent", fun ps => .effect (Effect.transparentOf ps)),
   ("sharpness", fun ps => .effect (Effect.sharpnessOf ps)),
   ("darkmode", fun _ => .darkmode)]

def maker? (name : String) : Option (Parameters → Builtin) :=
  Keyed.lookup name makers

end Builtin

end AltRender

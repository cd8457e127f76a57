import AltRender.Picture.Basic
import AltRender.Source
import AltRender.Theme

/-!
# `Filter` — what transforms a picture, and how it signs

A filter takes a frame, a picture together with the source it came from, to the next frame, or says
why it cannot. It has a *signature*, its name with all its resolved parameters. Cache entries are
named after the signatures of the filters that made them, so a signature has to say everything that
can influence a pixel.

The source is handed on with the picture because a filter may look at it, though none of the
built-in ones does. The theme is no part of a signature: the name of an entry has the theme in a
place of its own, behind all signatures.
-/

set_option autoImplicit false

namespace AltRender

structure Frame where
  picture : Picture
  source : Source

/-- Why a filter gives no picture. -/
inductive FilterFault where
  /-- The filter does not work on this picture. -/
  | unsupported (filter reason : String)
  /-- The filter broke off. -/
  | failed (filter reason : String)
  deriving DecidableEq, Repr

def FilterFault.message : FilterFault → String
  | .unsupported filter reason => s!"Filter '{filter}' cannot process this image: {reason}"
  | .failed filter reason => s!"Filter '{filter}' failed: {reason}"

/-- A filter: its name, its signature, and what it does to a frame under a theme. -/
structure Filter where
  name : String
  signature : String
  apply : Frame → Option Theme → Except FilterFault Frame

namespace Filter

/-- A filter that refuses every frame for the same reason. -/
def refusing (name reason : String) : Filter :=
  ⟨name, name, fun _ _ => .error (.failed name reason)⟩

end Filter

/-- **A name and its parameters as a signature:** `name(key=value,…)`, or the name alone. -/
def signatureText (name : String) (parameters : List (String × String)) : String :=
  if parameters.isEmpty then name
  else
    let arguments := parameters.map fun p => p.1 ++ "=" ++ p.2
    name ++ "(" ++ String.intercalate "," arguments ++ ")"

end AltRender

import AltRender.Text.Blank
import AltRender.Text.Letters

/-!
# `Theme` — the colour scheme a picture is rendered for

A theme has a tag, which stands at the end of cache names and in every listing, and is read from
what a user types: blanks around it and the case of its letters do not matter.

No theme and the usual theme are told apart by the cache: a render without a theme has an entry of
its own, though its filters go by the usual theme. A word that names no theme is refused by the
command line, before anything is rendered.
-/

set_option autoImplicit false

namespace AltRender

open AltRender.Text

/-- The colour scheme a render is for. -/
inductive Theme where
  | dark
  | light
  deriving DecidableEq, Repr, Inhabited

namespace Theme

/-- The theme that counts when none is given. -/
def usual : Theme := .dark

def tag : Theme → String
  | .dark => "dark"
  | .light => "light"

/-- A word that names no theme, as it was compared: without blanks around it, in lower case. -/
structure Unknown where
  word : String
  deriving DecidableEq, Repr

def Unknown.message (e : Unknown) : String :=
  s!"Unknown theme '{e.word}': expected 'dark' or 'light'"

/-- The theme a text names. -/
def ofText (text : String) : Except Unknown Theme :=
  let word := String.ofList (lower (trim text.toList))
  if word = Theme.dark.tag then .ok .dark
  else if word = Theme.light.tag then .ok .light
  else .error ⟨word⟩

end Theme

end AltRender

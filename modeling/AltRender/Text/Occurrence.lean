/-!
# `Text/Occurrence` — one text within another

The test is made at every place from the left. What it is for here is the fingerprint of a source,
which stands in the names of its entries: clearing a source removes the files whose names have it
somewhere. `occursIn_iff` says what the test finds, without the places, and everything that is
proved about clearing goes by that.
-/

set_option autoImplicit false

namespace AltRender.Text

/-- Whether a text occurs somewhere in another. -/
def occursIn (part : List Char) : List Char → Bool
  | [] => part.isEmpty
  | c :: cs => part.isPrefixOf (c :: cs) || occursIn part cs

/-- **A text occurs in another if and only if the other is made of it and something on either
side.** -/
theorem occursIn_iff (part cs : List Char) : occursIn part cs = true ↔ part <:+: cs := by
  induction cs with
  | nil => simp [occursIn]
  | cons c cs ih => simp [occursIn, ih, List.infix_cons_iff]

end AltRender.Text

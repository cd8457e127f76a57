/-!
# `Text/Blank` — blank characters, and cutting them off

Annotations are written by people, in any language, so "blank" is Unicode's `White_Space` property
and not the six ASCII characters: a no-break space or an ideographic space around an argument is as
invisible as an ordinary one. The property is a fixed table of twenty-five characters.

Main fact: `trim` cuts nothing but blanks, and only at the two ends (`exists_trim_append`).

Nothing else than the two ends is touched, and a text of blanks alone becomes the empty one. Cutting
twice is cutting once, since what is left has no blank at either end.
-/

set_option autoImplicit false

namespace AltRender.Text

/-! ## The table -/

/-- The characters with Unicode's `White_Space` property. -/
def isBlank (c : Char) : Bool :=
  (9 ≤ c.val && c.val ≤ 13) || c.val == 0x20 || c.val == 0x85 || c.val == 0xA0 || c.val == 0x1680 ||
  (0x2000 ≤ c.val && c.val ≤ 0x200A) || c.val == 0x2028 || c.val == 0x2029 || c.val == 0x202F ||
  c.val == 0x205F || c.val == 0x3000

/-! ## Cutting -/

def trimStart (cs : List Char) : List Char :=
  cs.dropWhile isBlank

def trimEnd (cs : List Char) : List Char :=
  (cs.reverse.dropWhile isBlank).reverse

/-- The text without the blanks at its two ends. -/
def trim (cs : List Char) : List Char :=
  trimEnd (trimStart cs)

/-- What is cut at the start is blank. -/
theorem isBlank_of_mem_takeWhile {cs : List Char} {c : Char} (h : c ∈ cs.takeWhile isBlank) :
    isBlank c = true := by
  induction cs with
  | nil => simp at h
  | cons d ds ih =>
    cases hd : isBlank d <;> simp [List.takeWhile, hd] at h
    rcases h with rfl | h
    · exact hd
    · exact ih h

/-- The text before a cut at the start is the cut blanks and then what is left. -/
theorem takeWhile_append_trimStart (cs : List Char) :
    cs.takeWhile isBlank ++ trimStart cs = cs :=
  List.takeWhile_append_dropWhile

/-- The text before a cut at the end is what is left and then the cut blanks. -/
theorem trimEnd_append (cs : List Char) :
    trimEnd cs ++ (cs.reverse.takeWhile isBlank).reverse = cs := by
  rw [trimEnd, ← List.reverse_append, List.takeWhile_append_dropWhile, List.reverse_reverse]

/-- **Cutting removes blanks only, and only at the ends.** -/
theorem exists_trim_append (cs : List Char) :
    ∃ front back : List Char, (∀ c ∈ front, isBlank c = true) ∧ (∀ c ∈ back, isBlank c = true) ∧
      front ++ trim cs ++ back = cs := by
  refine ⟨cs.takeWhile isBlank, ((trimStart cs).reverse.takeWhile isBlank).reverse, ?_, ?_, ?_⟩
  · intro c hc
    exact isBlank_of_mem_takeWhile hc
  · intro c hc
    exact isBlank_of_mem_takeWhile (List.mem_reverse.mp hc)
  · rw [List.append_assoc, trim, trimEnd_append, takeWhile_append_trimStart]

end AltRender.Text

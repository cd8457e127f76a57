/-!
# `Text/Cut` — texts cut at a character

Paths are cut at slashes: every one of them ends a piece, so a text with `n` of them has `n + 1`
pieces, some of which may be empty. Joined again they are the text.

Cutting keeps everything: empty pieces at either end and between two slashes are pieces like any
other, and it is left to the reader of a path which of them mean something. So a text and its pieces
say the same (`glue_cut`), and a statement about a path may be made about either.
-/

set_option autoImplicit false

namespace AltRender.Text

/-- The pieces between the occurrences of a character. There is always at least one. -/
def cut (d : Char) : List Char → List (List Char)
  | [] => [[]]
  | c :: cs =>
    if c = d then [] :: cut d cs
    else
      match cut d cs with
      | [] => [[c]]
      | piece :: pieces => (c :: piece) :: pieces

/-- The pieces with a character between them. -/
def glue (d : Char) : List (List Char) → List Char
  | [] => []
  | [piece] => piece
  | piece :: next :: pieces => piece ++ d :: glue d (next :: pieces)

theorem cut_ne_nil (d : Char) (cs : List Char) : cut d cs ≠ [] := by
  cases cs with
  | nil => simp [cut]
  | cons c cs =>
    simp only [cut]
    split
    · simp
    · split <;> simp

/-- **Glued together again, the pieces are the text.** -/
theorem glue_cut (d : Char) (cs : List Char) : glue d (cut d cs) = cs := by
  induction cs with
  | nil => rfl
  | cons c cs ih =>
    simp only [cut]
    split
    · rename_i hc
      cases h : cut d cs with
      | nil => exact absurd h (cut_ne_nil d cs)
      | cons piece pieces =>
        rw [h] at ih
        simp [glue, ih, hc]
    · cases h : cut d cs with
      | nil => exact absurd h (cut_ne_nil d cs)
      | cons piece pieces =>
        rw [h] at ih
        cases pieces with
        | nil => simpa [glue] using ih
        | cons next rest => simpa [glue] using ih

/-- No piece holds the character it was cut at. -/
theorem not_mem_of_mem_cut {d : Char} {cs piece : List Char} (h : piece ∈ cut d cs) :
    d ∉ piece := by
  induction cs generalizing piece with
  | nil =>
    simp [cut] at h
    simp [h]
  | cons c cs ih =>
    simp only [cut] at h
    split at h
    · rcases List.mem_cons.mp h with rfl | h
      · simp
      · exact ih h
    · rename_i hc
      cases hcut : cut d cs with
      | nil => exact absurd hcut (cut_ne_nil d cs)
      | cons first rest =>
        rw [hcut] at h ih
        rcases List.mem_cons.mp h with rfl | h
        · simp only [List.mem_cons, not_or]
          exact ⟨fun e => hc e.symm, ih (List.mem_cons_self ..)⟩
        · exact ih (List.mem_cons_of_mem _ h)

end AltRender.Text

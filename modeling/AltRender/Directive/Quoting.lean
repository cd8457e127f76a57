import AltRender.Directive.Problem
import AltRender.Text.Letters

/-!
# `Directive/Quoting` — quotes in argument lists

Three readers have to agree about what is quoted: the search for the parenthesis that closes an
argument list, the cut at commas and equals signs, and the reading of a quoted text. All three step
through the text with one automaton of three states. A double quote opens and closes; inside quotes
a backslash takes the next character with it, whatever that is; outside quotes a backslash means
nothing.

Main facts: a closed argument list is the text up to its parenthesis (`closing_append`), and the
pieces of a cut, joined again with the delimiter, are the text that was cut (`intercalate_pieces`).
-/

set_option autoImplicit false

namespace AltRender.Directive

open AltRender.Text

/-! ## The automaton -/

/-- Where in quoted text a reader stands. -/
inductive Quoting where
  /-- Outside quotes. -/
  | outside
  /-- Between two quotes. -/
  | inside
  /-- Between two quotes, right after a backslash. -/
  | escaped
  deriving DecidableEq, Repr

/-- The state after one more character. -/
def Quoting.step : Quoting → Char → Quoting
  | .outside, c => if c = '"' then .inside else .outside
  | .inside, c => if c = '\\' then .escaped else if c = '"' then .outside else .inside
  | .escaped, _ => .inside

/-! ## The closing parenthesis -/

/-- Where an argument list ends: what stands inside it and what follows its closing parenthesis. -/
structure Closed where
  inside : List Char
  beyond : List Char
  deriving DecidableEq, Repr

/-- Reads on to the parenthesis that closes an argument list. `list` is the offset of the list's own
opening parenthesis, `quote` that of the quote opened last, `offset` that of the next character. -/
def closingFrom (list : Nat) (state : Quoting) (quote offset : Nat) :
    List Char → Except Problem Closed
  | [] => .error (if state = .outside then .unbalanced list else .unterminated quote)
  | c :: rest =>
    if state = .outside ∧ c = ')' then .ok ⟨[], rest⟩
    else if state = .outside ∧ c = '(' then .error (.unbalanced offset)
    else
      let quote := if state = .outside ∧ c = '"' then offset else quote
      match closingFrom list (state.step c) quote (offset + c.utf8Size) rest with
      | .ok closed => .ok { closed with inside := c :: closed.inside }
      | .error problem => .error problem

/-- **The end of an argument list** whose opening parenthesis has the given offset and is followed
by the text. Parentheses between quotes do not count, and a list inside a list is refused at its
parenthesis. -/
def closing (list : Nat) (cs : List Char) : Except Problem Closed :=
  closingFrom list .outside (list + 1) (list + 1) cs

theorem closingFrom_append {list quote offset : Nat} {state : Quoting} {cs : List Char}
    {closed : Closed} (h : closingFrom list state quote offset cs = .ok closed) :
    closed.inside ++ ')' :: closed.beyond = cs := by
  induction cs generalizing state quote offset closed with
  | nil => simp [closingFrom] at h
  | cons c rest ih =>
    simp only [closingFrom] at h
    split at h
    · rename_i hc
      cases h
      simp [hc.2]
    · split at h
      · simp at h
      · split at h
        · rename_i closed' heq
          cases h
          simpa using ih heq
        · simp at h

/-- A closed argument list, its parenthesis and what follows are the text that was read. -/
theorem closing_append {list : Nat} {cs : List Char} {closed : Closed}
    (h : closing list cs = .ok closed) : closed.inside ++ ')' :: closed.beyond = cs :=
  closingFrom_append h

/-- What follows a closed argument list is shorter than what was read. -/
theorem closing_length {list : Nat} {cs : List Char} {closed : Closed}
    (h : closing list cs = .ok closed) : closed.beyond.length < cs.length := by
  have := congrArg List.length (closing_append h)
  simp at this
  omega

/-! ## Cutting at a delimiter -/

/-- The text with the character put before its first piece. -/
def addToFirst (c : Char) : List (List Char) → List (List Char)
  | [] => [[c]]
  | piece :: pieces => (c :: piece) :: pieces

/-- The pieces between the delimiters that stand outside quotes, read on from a state. -/
def piecesFrom (delimiter : Char) (state : Quoting) : List Char → List (List Char)
  | [] => [[]]
  | c :: rest =>
    if state = .outside ∧ c = delimiter then [] :: piecesFrom delimiter .outside rest
    else addToFirst c (piecesFrom delimiter (state.step c) rest)

/-- **The pieces of a text between the delimiters outside quotes.** There is always at least one. -/
def pieces (delimiter : Char) (cs : List Char) : List (List Char) :=
  piecesFrom delimiter .outside cs

def intercalate (delimiter : Char) : List (List Char) → List Char
  | [] => []
  | [piece] => piece
  | piece :: next :: pieces => piece ++ delimiter :: intercalate delimiter (next :: pieces)

theorem piecesFrom_ne_nil (delimiter : Char) (state : Quoting) (cs : List Char) :
    piecesFrom delimiter state cs ≠ [] := by
  cases cs with
  | nil => simp [piecesFrom]
  | cons c rest =>
    simp only [piecesFrom]
    split
    · simp
    · cases piecesFrom delimiter (state.step c) rest <;> simp [addToFirst]

theorem intercalate_addToFirst (delimiter c : Char) {ps : List (List Char)} (h : ps ≠ []) :
    intercalate delimiter (addToFirst c ps) = c :: intercalate delimiter ps := by
  match ps with
  | [] => exact absurd rfl h
  | [piece] => rfl
  | piece :: next :: rest => rfl

theorem intercalate_piecesFrom (delimiter : Char) (state : Quoting) (cs : List Char) :
    intercalate delimiter (piecesFrom delimiter state cs) = cs := by
  induction cs generalizing state with
  | nil => rfl
  | cons c rest ih =>
    simp only [piecesFrom]
    split
    · rename_i hc
      have hne := piecesFrom_ne_nil delimiter .outside rest
      have hi := ih .outside
      cases hp : piecesFrom delimiter .outside rest with
      | nil => exact absurd hp hne
      | cons p ps =>
        rw [hp] at hi
        simp [intercalate, hi, hc.2]
    · rw [intercalate_addToFirst _ _ (piecesFrom_ne_nil _ _ _), ih]

/-- **Joined again with the delimiter, the pieces are the text.** -/
theorem intercalate_pieces (delimiter : Char) (cs : List Char) :
    intercalate delimiter (pieces delimiter cs) = cs :=
  intercalate_piecesFrom delimiter .outside cs

/-! ## Quoted texts -/

/-- The characters that a backslash inside quotes stands for without itself. -/
def isEscapable (c : Char) : Bool :=
  c == '"' || c == '(' || c == ')' || c == '\\'

/-- What a text means up to its closing quote, which has to be its last character. A backslash
before a quote, a parenthesis or a backslash is dropped, before any other character it is kept. -/
def unquoteRest : List Char → Option (List Char)
  | [] => none
  | '"' :: rest => if rest.isEmpty then some [] else none
  | ['\\'] => none
  | '\\' :: c :: rest =>
    (unquoteRest rest).map (fun meaning => if isEscapable c then c :: meaning
      else '\\' :: c :: meaning)
  | c :: rest => (unquoteRest rest).map (c :: ·)

/-- **The meaning of a quoted text,** if the whole text is one. -/
def unquote : List Char → Option (List Char)
  | '"' :: rest => unquoteRest rest
  | _ => none

end AltRender.Directive

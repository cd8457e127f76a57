/-!
# `Glob/Pattern` — patterns for names

In a pattern `?` stands for any character, `*` for any run of characters, `[…]` for one of a class
and `[!…]` for one outside it; everything else stands for itself. Two stars stand for any number of
directories and have to be a whole component of a path. A pattern that cannot be read is refused
with the position, in characters, where it goes wrong.

What a pattern stands for is decided on characters, from the left, by trying for each star every run
it could stand for. Capital letters are not small ones, a point at the start of a name is a
character like any other, and a slash never comes up, because a pattern is for one name.
-/

set_option autoImplicit false

namespace AltRender.Glob

/-- What one part of a pattern stands for. -/
inductive Token where
  | char (c : Char)
  | any
  | anyRun
  | anyPath
  | within (ranges : List (Char × Char))
  | outside (ranges : List (Char × Char))
  deriving DecidableEq, Repr

/-- A pattern, part by part. -/
abbrev Pattern := List Token

/-! ## Reading -/

/-- What is wrong with a pattern. -/
inductive Flaw where
  /-- More than two stars in a row. -/
  | tooManyStars
  /-- Two stars that are not a whole component. -/
  | partOfComponent
  /-- A class without an end. -/
  | openClass
  deriving DecidableEq, Repr

structure PatternFault where
  position : Nat
  flaw : Flaw
  deriving DecidableEq, Repr

def Flaw.message : Flaw → String
  | .tooManyStars => "wildcards are either regular `*` or recursive `**`"
  | .partOfComponent => "recursive wildcards must form a single path component"
  | .openClass => "invalid range pattern"

def PatternFault.message (f : PatternFault) : String :=
  s!"Pattern syntax error near position {f.position}: {f.flaw.message}"

/-- The ranges of a class: two characters with a hyphen between them, or one character on its
own. -/
def ranges : List Char → List (Char × Char)
  | low :: '-' :: high :: rest => (low, high) :: ranges rest
  | c :: rest => (c, c) :: ranges rest
  | [] => []

/-- The class behind an opening bracket, and how many characters it takes with its closing bracket.
The first of its characters may be a closing bracket itself. -/
def takeClass : List Char → Option (Token × Nat)
  | '!' :: c :: rest =>
    let more := rest.takeWhile (· != ']')
    if more.length < rest.length then some (.outside (ranges (c :: more)), more.length + 3)
      else none
  | ['!'] => none
  | c :: rest =>
    let more := rest.takeWhile (· != ']')
    if more.length < rest.length then some (.within (ranges (c :: more)), more.length + 2) else none
  | [] => none

/-- The pattern that a text writes, from a position on. `fresh` says that a component starts
there. -/
def parseFrom (fresh : Bool) (position : Nat) : List Char → Except PatternFault Pattern
  | [] => .ok []
  | '?' :: rest => (parseFrom false (position + 1) rest).map (.any :: ·)
  | '*' :: '*' :: '*' :: _ => .error ⟨position + 2, .tooManyStars⟩
  -- Two stars are a component of their own: one starts before them and ends behind them.
  | '*' :: '*' :: rest =>
    if !fresh then .error ⟨position - 1, .partOfComponent⟩
    else
      match rest with
      | [] => .ok [.anyPath]
      | '/' :: rest => (parseFrom true (position + 3) rest).map (.anyPath :: ·)
      | _ => .error ⟨position + 2, .partOfComponent⟩
  | '*' :: rest => (parseFrom false (position + 1) rest).map (.anyRun :: ·)
  | '[' :: rest =>
    match takeClass rest with
    | none => .error ⟨position, .openClass⟩
    | some (token, n) => (parseFrom false (position + 1 + n) (rest.drop n)).map (token :: ·)
  | c :: rest => (parseFrom (c == '/') (position + 1) rest).map (.char c :: ·)
termination_by cs => cs.length
decreasing_by
  all_goals simp only [List.length_cons, List.length_drop]
  all_goals omega

/-- **The pattern that a text writes.** -/
def parse (text : List Char) : Except PatternFault Pattern :=
  parseFrom true 0 text

/-! ## Matching -/

def inRanges (ranges : List (Char × Char)) (c : Char) : Bool :=
  ranges.any fun r => r.1 ≤ c && c ≤ r.2

def Token.accepts : Token → Char → Bool
  | .char c', c => c' == c
  | .any, _ => true
  | .within ranges, c => inRanges ranges c
  | .outside ranges, c => !inRanges ranges c
  | .anyRun, _ => false
  | .anyPath, _ => false

/-- Whether a part of a pattern stands for a run of any length. -/
def Token.isRun : Token → Bool
  | .anyRun | .anyPath => true
  | _ => false

/-- **Whether a pattern stands for a name.** -/
def Pattern.fits : Pattern → List Char → Bool
  | [], cs => cs.isEmpty
  | t :: ts, [] => t.isRun && Pattern.fits ts []
  | t :: ts, c :: cs =>
    if t.isRun then Pattern.fits ts (c :: cs) || Pattern.fits (t :: ts) cs
    else t.accepts c && Pattern.fits ts cs
termination_by ts cs => ts.length + cs.length

theorem Pattern.fits_nil (cs : List Char) : Pattern.fits [] cs = cs.isEmpty := by
  rw [Pattern.fits]

theorem Pattern.fits_cons_nil (t : Token) (ts : Pattern) :
    Pattern.fits (t :: ts) [] = (t.isRun && Pattern.fits ts []) := by
  rw [Pattern.fits]

theorem Pattern.fits_cons (t : Token) (ts : Pattern) (c : Char) (cs : List Char) :
    Pattern.fits (t :: ts) (c :: cs) =
      if t.isRun then Pattern.fits ts (c :: cs) || Pattern.fits (t :: ts) cs
      else t.accepts c && Pattern.fits ts cs := by
  rw [Pattern.fits]

/-- The text that a pattern stands for, if there is only one. -/
def Pattern.literal? : Pattern → Option (List Char)
  | [] => some []
  | .char c :: rest => (Pattern.literal? rest).map (c :: ·)
  | _ => none

/-- Whether the pattern stands for any number of directories. -/
def Pattern.isAnyPath (p : Pattern) : Bool :=
  p.contains .anyPath

end AltRender.Glob

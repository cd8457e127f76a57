import AltRender.Directive.Argument

/-!
# `Directive/Annotation` — the directives in a text

An annotation is free text with directives in it: `@name`, or `@name(…)` with the parenthesis right
behind the name. The reader looks at every `@` once. One in the middle of a word is plain text
(`me@home.org`), unless the word before it is the name of a directive that was just read
(`@invert@darkmode`). Every other one that is followed by a name is an *attempt*: it ends in a
request for a filter or in a problem, and after a problem reading goes on right behind the name, so
one malformed directive never hides another.

`attempts` lists all of them with their positions; `specs` and `diagnostics` are its two halves.
-/

set_option autoImplicit false

namespace AltRender.Directive

open AltRender.Text

/-- One directive of an annotation: the offset of its `@`, its name, and its arguments or its
problem. -/
structure Attempt where
  offset : Nat
  name : String
  outcome : Except Problem Parameters

namespace Attempt

def spec? (a : Attempt) : Option Spec :=
  match a.outcome with
  | .ok parameters => some ⟨a.name, parameters⟩
  | .error _ => none

def diagnostic? (a : Attempt) : Option Diagnostic :=
  match a.outcome with
  | .ok _ => none
  | .error problem => some ⟨a.name, problem⟩

end Attempt

/-- What follows a directive's name: its outcome, the offset where reading goes on, and the text
there. `offset` is that of the first character behind the name. -/
def readTail (offset : Nat) (cs : List Char) : Except Problem Parameters × Nat × List Char :=
  match cs with
  | '(' :: list =>
    match closing offset list with
    -- A list with a problem is not skipped: what stands in it is read as text, and may hold
    -- directives.
    | .error problem => (.error problem, offset, cs)
    | .ok closed =>
      match readArguments closed.inside with
      | .error problem => (.error problem, offset, cs)
      | .ok parameters => (.ok parameters, offset + byteLength closed.inside + 2, closed.beyond)
  | _ => (.ok Keyed.empty, offset, cs)

theorem length_readTail_le (offset : Nat) (cs : List Char) :
    (readTail offset cs).2.2.length ≤ cs.length := by
  unfold readTail
  split
  · rename_i list
    split
    · exact Nat.le_refl _
    · rename_i closed hclosed
      split
      · exact Nat.le_refl _
      · have := closing_length hclosed
        simp only [List.length_cons]
        omega
  · exact Nat.le_refl _

theorem length_dropWhile_le {α : Type} (p : α → Bool) (xs : List α) :
    (xs.dropWhile p).length ≤ xs.length :=
  (List.dropWhile_sublist p).length_le

/-- The attempts of a text that starts at an offset. `attached` says that the character before it is
part of a word, so that an `@` here is plain text. -/
def attemptsFrom (attached : Bool) (offset : Nat) : List Char → List Attempt
  | [] => []
  | c :: rest =>
    let name := rest.takeWhile isNameChar
    if c = '@' ∧ !attached ∧ !name.isEmpty then
      let behind := offset + 1 + name.length
      let tail := readTail behind (rest.dropWhile isNameChar)
      ⟨offset, String.ofList name, tail.1⟩ :: attemptsFrom false tail.2.1 tail.2.2
    else attemptsFrom (isNameChar c) (offset + c.utf8Size) rest
termination_by cs => cs.length
decreasing_by
  all_goals simp_wf
  · have h₁ := length_readTail_le (offset + 1 + (rest.takeWhile isNameChar).length)
      (rest.dropWhile isNameChar)
    have h₂ := length_dropWhile_le isNameChar rest
    omega

/-- **The attempts of an annotation,** in the order of the text. -/
def attempts (text : String) : List Attempt :=
  attemptsFrom false 0 text.toList

def specs (text : String) : List Spec :=
  (attempts text).filterMap Attempt.spec?

def diagnostics (text : String) : List Diagnostic :=
  (attempts text).filterMap Attempt.diagnostic?

end AltRender.Directive

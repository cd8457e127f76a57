/-!
# `Directive/Problem` — why a directive was passed over

A directive that cannot be used never stops a render: it is passed over, and its problem is
reported. Offsets count the bytes of the annotation in UTF-8 from its start.

A problem carries what its message needs and nothing else: an offset where a place is to blame, the
key and the text where an argument is. Two problems of one annotation can be told apart by their
directives, whose names stand beside them. A name that no registry knows is a problem of its own,
which only a registry can find.
-/

set_option autoImplicit false

namespace AltRender.Directive

inductive Problem where
  /-- The argument list has no end, or another one opens inside it; `offset` is the parenthesis. -/
  | unbalanced (offset : Nat)
  /-- A quoted value has no end; `offset` is its opening quote. -/
  | unterminated (offset : Nat)
  /-- An argument's key is empty or has a character that keys may not have. -/
  | badKey (key : String)
  /-- An argument's value is none of the forms of a value. -/
  | badValue (key value : String)
  | unknownFilter
  deriving DecidableEq, Repr

/-- A problem and the name of the directive that has it. -/
structure Diagnostic where
  directive : String
  problem : Problem
  deriving DecidableEq, Repr

def Diagnostic.message (d : Diagnostic) : String :=
  match d.problem with
  | .unbalanced offset =>
    s!"Directive '@{d.directive}' at offset {offset} has no closing parenthesis"
  | .unterminated offset =>
    s!"Directive '@{d.directive}' at offset {offset} has an unterminated quoted value"
  | .badKey key => s!"Directive '@{d.directive}' has an invalid argument key '{key}'"
  | .badValue key value => s!"Directive '@{d.directive}' has an invalid value for '{key}': {value}"
  | .unknownFilter => s!"Unknown filter '@{d.directive}'"

end AltRender.Directive

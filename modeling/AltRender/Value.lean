import AltRender.Decimal.Layout
import AltRender.Keyed

/-!
# `Value` — what a directive's argument holds

An argument is a number, a text or a flag. Which of the three it is gets decided once, where the
annotation is read; a filter asks for the kind it can use and falls back to its default on any
other.

Numbers are doubles, as nothing in an annotation needs more. The order of the arguments plays no
part for a filter, which looks them up by key; it is kept for those who show a request or write it
down.
-/

set_option autoImplicit false

namespace AltRender

open AltRender.Decimal

/-- The value of an argument. -/
inductive Value where
  | number (x : Float)
  | text (s : String)
  | flag (b : Bool)

namespace Value

def number? : Value → Option Float
  | .number x => some x
  | _ => none

def text? : Value → Option String
  | .text s => some s
  | _ => none

def flag? : Value → Option Bool
  | .flag b => some b
  | _ => none

def kind : Value → String
  | .number _ => "number"
  | .text _ => "text"
  | .flag _ => "boolean"

/-- The value as a listing shows it, a text without quotes. -/
def display : Value → String
  | .number x => plainText x
  | .text s => s
  | .flag b => if b then "true" else "false"

end Value

/-- The arguments of a directive by key, in the order of first use. -/
abbrev Parameters := Keyed String Value

/-- The number under a key; a value of another kind counts as missing. -/
def Parameters.number? (ps : Parameters) (key : String) : Option Float :=
  (ps.get? key).bind Value.number?

/-- A request for a filter: its name and its arguments. -/
structure Spec where
  name : String
  parameters : Parameters

end AltRender

import AltRender.Json.Basic
import AltRender.Json.Token

/-!
# `Json/Reader` — JSON values from their tokens

Reading keeps a stack of the lists and objects that are still open. Every token takes one state of
the reader to the next, or is out of place; a text is a value if its tokens lead to a finished value
with nothing open.

No value is read before its end is seen: a text with something behind its value is no value. The
stack says what an end closes, so that brackets of different kinds cannot close each other.
-/

set_option autoImplicit false

namespace AltRender.Json

/-- A list or an object that is still open, with what it holds so far, newest first. In an object
the key of the value to come is known. A key that is no text makes the whole object ill formed. -/
inductive Open where
  | list (items : List Json)
  | object (fields : List (Option String × Json)) (key : Option String)

/-- What a reader waits for; `up` is what is open around it. -/
inductive State where
  /-- A value. -/
  | value (up : List Open)
  /-- A value or the end of a list that has just begun. -/
  | listStart (up : List Open)
  /-- A key or the end of an object that has just begun. -/
  | objectStart (up : List Open)
  /-- A further key. -/
  | key (fields : List (Option String × Json)) (up : List Open)
  /-- The colon behind a key. -/
  | colon (fields : List (Option String × Json)) (key : Option String) (up : List Open)
  /-- What follows a finished value: a comma or the end of what it is in. -/
  | after (value : Json) (up : List Open)

/-- The object of fields that are in reverse order. -/
def closeFields (fields : List (Option String × Json)) : Json :=
  match fields.reverse.mapM (fun f => f.1.map fun key => (key, f.2)) with
  | some fields => .object fields
  | none => .illFormed

/-- The state behind the first token of a value. -/
def State.begin (up : List Open) : Token → Option State
  | .openList => some (.listStart up)
  | .openObject => some (.objectStart up)
  | .null => some (.after .null up)
  | .flag b => some (.after (.flag b) up)
  | .number literal => some (.after (.number literal) up)
  | .text (some s) => some (.after (.text s) up)
  | .text none => some (.after .illFormed up)
  | _ => none

/-- **The state after one more token,** if it is in place. -/
def State.step : State → Token → Option State
  | .value up, token => State.begin up token
  | .listStart up, .closeList => some (.after (.list []) up)
  | .listStart up, token => State.begin (.list [] :: up) token
  | .objectStart up, .closeObject => some (.after (.object []) up)
  | .objectStart up, .text k => some (.colon [] k up)
  | .key fields up, .text k => some (.colon fields k up)
  | .colon fields k up, .colon => some (.value (.object fields k :: up))
  | .after v (.list items :: up), .comma => some (.value (.list (v :: items) :: up))
  | .after v (.list items :: up), .closeList => some (.after (.list (v :: items).reverse) up)
  | .after v (.object fields k :: up), .comma => some (.key ((k, v) :: fields) up)
  | .after v (.object fields k :: up), .closeObject =>
    some (.after (closeFields ((k, v) :: fields)) up)
  | _, _ => none

/-- **The value that a text writes.** -/
def read? (text : String) : Option Json := do
  let tokens ← tokens? text.toList
  match ← tokens.foldlM State.step (.value []) with
  | .after v [] => some v
  | _ => none

end AltRender.Json

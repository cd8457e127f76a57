import AltRender.Colour
import AltRender.Json.Reader
import AltRender.Source
import AltRender.Theme
import AltRender.Value

/-!
# `Json/Record` — requests and sources as JSON

A request for a filter is an object with its name and its arguments, an argument an object with the
word for its kind and its value. Reading accepts fields in any order and passes over fields it does
not know, but a field that it does know may not be repeated, and `null` stands for nothing. A record
may also be a list of its fields' values in their fixed order. Of an argument given twice the last
value counts, in the place of the first.

A number that is not finite is written as `null` and so cannot be read back.
-/

set_option autoImplicit false

namespace AltRender

open AltRender.Json

/-! ## Fields -/

namespace Json

/-- The value of a field, if there is one; nothing at all if the field is repeated. -/
def optionalField (key : String) (fields : List (String × Json)) : Option (Option Json) :=
  match fields.filter (fun f => f.1 = key) with
  | [] => some none
  | [f] => some (some f.2)
  | _ => none

/-- The value of a field that has to be there once. -/
def field (key : String) (fields : List (String × Json)) : Option Json :=
  (optionalField key fields).join

def text? : Json → Option String
  | .text s => some s
  | _ => none

def flag? : Json → Option Bool
  | .flag b => some b
  | _ => none

def float? : Json → Option Float
  | .number literal => (Numeral.ofText? literal).bind Numeral.toFloat?
  | _ => none

/-- The natural number below 2^64 that a value is. -/
def word? : Json → Option UInt64
  | .number literal => (Numeral.ofText? literal).bind Numeral.word?
  | _ => none

end Json

/-! ## Arguments -/

namespace Value

/-- The value alone, without the word for its kind. -/
def payload : Value → Json
  | .number x => .ofFloat x
  | .text s => .text s
  | .flag b => .flag b

def toJson (v : Value) : Json :=
  .object [("type", .text v.kind), ("value", v.payload)]

/-- The argument of a kind with a payload. -/
def ofPayload? (kind : String) (payload : Json) : Option Value :=
  if kind = "number" then payload.float?.map .number
  else if kind = "text" then payload.text?.map .text
  else if kind = "boolean" then payload.flag?.map .flag
  else none

def ofJson? : Json → Option Value
  | .object fields => do
    let kind ← (← field "type" fields).text?
    ofPayload? kind (← field "value" fields)
  | .list [kind, payload] => kind.text?.bind fun kind => ofPayload? kind payload
  | _ => none

end Value

namespace Parameters

def toJson (ps : Parameters) : Json :=
  .object (ps.entries.map fun e => (e.1, e.2.toJson))

def ofJson? : Json → Option Parameters
  | .object fields =>
    (fields.mapM fun f => (Value.ofJson? f.2).map fun v => (f.1, v)).map Keyed.ofList
  | _ => none

end Parameters

/-! ## Requests -/

namespace Spec

def toJson (s : Spec) : Json :=
  .object [("name", .text s.name), ("parameters", s.parameters.toJson)]

/-- The request of a name and of arguments that may be missing. -/
private def ofParts? (name : Json) (parameters : Option Json) : Option Spec := do
  let name ← name.text?
  match parameters with
  | none => pure ⟨name, Keyed.empty⟩
  | some parameters => pure ⟨name, ← Parameters.ofJson? parameters⟩

def ofJson? : Json → Option Spec
  | .object fields => do ofParts? (← field "name" fields) (← optionalField "parameters" fields)
  | .list [name] => ofParts? name none
  | .list [name, parameters] => ofParts? name (some parameters)
  | _ => none

def listToJson (specs : List Spec) : Json :=
  .list (specs.map toJson)

def listOfJson? : Json → Option (List Spec)
  | .list items => items.mapM ofJson?
  | _ => none

/-- **The requests that a text writes.** -/
def listOfText? (text : String) : Option (List Spec) :=
  (Json.read? text).bind listOfJson?

end Spec

/-! ## Sources -/

namespace Source

def toJson (s : Source) : Json :=
  .object [("identity", .text s.identity), ("display_name", .text s.displayName),
    ("base_name", .text s.baseName),
    ("modified_at_ms", .ofNat s.modified.toNat)]

def ofJson? : Json → Option Source
  | .object fields => do
    let identity ← field "identity" fields
    let displayName ← field "display_name" fields
    let baseName ← field "base_name" fields
    let modified ← field "modified_at_ms" fields
    ofParts? identity displayName baseName modified
  | .list [identity, displayName, baseName, modified] =>
    ofParts? identity displayName baseName modified
  | _ => none
where
  ofParts? (identity displayName baseName modified : Json) : Option Source := do
    pure ⟨← identity.text?, ← displayName.text?, ← baseName.text?, ← modified.word?⟩

/-- **The source that a text writes.** -/
def ofText? (text : String) : Option Source :=
  (Json.read? text).bind ofJson?

end Source

/-! ## Colours and themes -/

def Colour.toJson (c : Colour) : Json :=
  .object [("r", .ofNat c.red.toNat), ("g", .ofNat c.green.toNat), ("b", .ofNat c.blue.toNat),
    ("a", .ofNat c.alpha.toNat)]

def Theme.toJson (t : Theme) : Json :=
  .text t.tag

end AltRender

import AltRender.Decimal.Reading
import AltRender.Directive.Quoting
import AltRender.Text.Blank
import AltRender.Value

/-!
# `Directive/Argument` — the inside of an argument list

Entries are cut at commas, keys and values at an equals sign, both outside quotes only. Blanks
around all of them are dropped, and empty entries count for nothing. A key alone is a flag that is
set. The first entry that is no argument decides the problem of the whole list.

So a list is read in three steps that know nothing of each other: the entries, the two sides of an
entry, and what a value means. Only the first and the second look at quotes, and the third at what
is between them. The character that escapes another works inside quotes alone.
-/

set_option autoImplicit false

namespace AltRender.Directive

open AltRender.Text

/-! ## Values -/

/-- A character of a word that needs no quotes. -/
def isWordChar (c : Char) : Bool :=
  isNameChar c || c == '#' || c == '.' || c == '+'

/-- **What a written value means:** a number if it has the form of one, else what stands between its
quotes, else the word it is. -/
def readValue (cs : List Char) : Option Value :=
  match Decimal.read? cs with
  | some x => some (.number x)
  | none =>
    if cs.head? = some '"' then (unquote cs).map (fun s => .text (String.ofList s))
    else if !cs.isEmpty && cs.all isWordChar then some (.text (String.ofList cs))
    else none

/-! ## Entries -/

/-- Whether the text is a key: a run of name characters that is not empty. -/
def isKey (cs : List Char) : Bool :=
  !cs.isEmpty && cs.all isNameChar

/-- The key and the value of an entry that is trimmed and not empty. -/
def readEntry (entry : List Char) : Except Problem (String × Value) :=
  match (pieces '=' entry).map trim with
  | [key] =>
    if isKey key then .ok (String.ofList key, .flag true)
    else .error (.badKey (String.ofList key))
  | [key, value] =>
    if isKey key then
      match readValue value with
      | some v => .ok (String.ofList key, v)
      | none => .error (.badValue (String.ofList key) (String.ofList value))
    else .error (.badKey (String.ofList key))
  | _ => .error (.badValue (String.ofList entry) (String.ofList entry))

def entries (cs : List Char) : List (List Char) :=
  ((pieces ',' cs).map trim).filter (fun entry => !entry.isEmpty)

/-- **The arguments between two parentheses.** Of a key given twice the last value counts, in the
place of the first. -/
def readArguments (cs : List Char) : Except Problem Parameters :=
  ((entries cs).mapM readEntry).map Keyed.ofList

end AltRender.Directive

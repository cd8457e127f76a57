import AltRender.Decimal.Layout
import AltRender.Text.Letters

/-!
# `Json` — JSON values and how they are written

A JSON value keeps its numbers as they are written: whether `5` is a count or a measurement, and
what `1e400` means, is for the reader of a record to say. Objects keep their fields in order,
repetitions included. A text that has half a surrogate pair in it stands for no sequence of
characters; the value it belongs to is `illFormed`, which does no harm as long as nobody asks for
it.

Values are written in two styles, on one line without blanks or with one item a line. Texts are
written with the shortest escapes and everything outside ASCII as it is.
-/

set_option autoImplicit false

namespace AltRender

open AltRender.Text AltRender.Decimal

inductive Json where
  | null
  | flag (b : Bool)
  | number (literal : String)
  | text (s : String)
  | list (items : List Json)
  | object (fields : List (String × Json))
  | illFormed
  deriving Inhabited

namespace Json

/-! ## Values -/

def ofNat (n : Nat) : Json :=
  .number (String.ofList (digitsOf n))

/-- A floating-point number as a JSON value; what is no finite number is `null`. -/
def ofFloat (x : Float) : Json :=
  let exact := Exact.ofFloat x
  if exact.isFinite then .number (String.ofList (exact.text Binary.double Layout.json)) else .null

/-! ## Texts -/

/-- A character inside a quoted JSON text. -/
def escaped (c : Char) : List Char :=
  if c = '"' then ['\\', '"']
  else if c = '\\' then ['\\', '\\']
  else if c = '\n' then ['\\', 'n']
  else if c = '\r' then ['\\', 'r']
  else if c = '\t' then ['\\', 't']
  else if c.toNat = 8 then ['\\', 'b']
  else if c.toNat = 12 then ['\\', 'f']
  else if c.toNat < 32 then '\\' :: 'u' :: '0' :: '0' :: hexByte false (UInt8.ofNat c.toNat)
  else [c]

def quoted (s : String) : List Char :=
  '"' :: s.toList.flatMap escaped ++ ['"']

/-! ## Styles -/

/-- How values are laid out. -/
inductive Style where
  /-- Everything on one line, without blanks. -/
  | compact
  /-- One item a line, two blanks deeper than what it is in. -/
  | indented
  deriving DecidableEq, Repr

namespace Style

/-- What stands before an item at a depth, and before the bracket that closes that depth. -/
def lineBreak : Style → Nat → List Char
  | .compact, _ => []
  | .indented, depth => '\n' :: List.replicate (2 * depth) ' '

/-- What stands between a key and its value. -/
def colon : Style → List Char
  | .compact => [':']
  | .indented => [':', ' ']

end Style

mutual

/-- The text of a value at a depth. -/
def write (style : Style) (depth : Nat) : Json → List Char
  | .null => "null".toList
  | .flag b => (if b then "true" else "false").toList
  | .number literal => literal.toList
  | .text s => quoted s
  | .list [] => ['[', ']']
  | .list (item :: items) =>
    '[' :: style.lineBreak (depth + 1) ++ write style (depth + 1) item ++
      writeItems style (depth + 1) items ++
      style.lineBreak depth ++ [']']
  | .object [] => ['{', '}']
  | .object ((key, value) :: fields) =>
    '{' :: style.lineBreak (depth + 1) ++ quoted key ++ style.colon ++
      write style (depth + 1) value ++
      writeFields style (depth + 1) fields ++ style.lineBreak depth ++ ['}']
  | .illFormed => "null".toList

/-- The further items of a list, each behind a comma. -/
def writeItems (style : Style) (depth : Nat) : List Json → List Char
  | [] => []
  | item :: items =>
    ',' :: style.lineBreak depth ++ write style depth item ++ writeItems style depth items

/-- The further fields of an object, each behind a comma. -/
def writeFields (style : Style) (depth : Nat) : List (String × Json) → List Char
  | [] => []
  | (key, value) :: fields =>
    ',' :: style.lineBreak depth ++ quoted key ++ style.colon ++ write style depth value ++
      writeFields style depth fields

end

/-- **The value on one line.** -/
def compactText (j : Json) : String :=
  String.ofList (write .compact 0 j)

/-- **The value with one item a line.** -/
def indentedText (j : Json) : String :=
  String.ofList (write .indented 0 j)

end Json

end AltRender

import AltRender.Toml.Scalar
import AltRender.Toml.Text

/-!
# `Toml/Reader` — tables from the text of a file

A file is a sequence of statements, one a line: headers, which say where what follows goes, and keys
with their items. Blanks and comments may stand between all of them. Inside a list an item may go
over several lines; everywhere else a statement ends with its line. A file has to be right from end
to end: there is no reading half of it.

Reading takes a text from its start and gives back what it has left, so each reader here says what
it takes. Keys and lists may be nested to a fixed depth, which also bounds the reading; that is far
more than a file of settings ever needs.
-/

set_option autoImplicit false

namespace AltRender.Toml

open AltRender.Text

/-! ## What stands between statements -/

/-- The text without the blanks at its start. -/
def dropSpaces (cs : List Char) : List Char :=
  cs.dropWhile isSpace

/-- The text without the comment at its start, if there is one. -/
def dropComment : List Char → List Char
  | '#' :: rest => rest.dropWhile fun c => !isControl c
  | cs => cs

/-- What follows the end of a line: blanks, a comment, and a line break or the end of the file. -/
def endLine? (cs : List Char) : Option (List Char) :=
  match dropComment (dropSpaces cs) with
  | [] => some []
  | cs => dropBreak? cs

/-- The text without blanks, line breaks and comments at its start. `comment` is set inside a
comment. -/
def dropFiller (comment : Bool) : List Char → List Char
  | [] => []
  | '\n' :: rest => dropFiller false rest
  | '\r' :: '\n' :: rest => dropFiller false rest
  | c :: rest =>
    if comment then (if isControl c then c :: rest else dropFiller true rest)
    else if isSpace c then dropFiller false rest
    else if c = '#' then dropFiller true rest
    else c :: rest

/-! ## Keys -/

/-- One part of a key: a run of name characters, or a quoted text on one line. -/
def takePart : List Char → Option (String × List Char)
  | '"' :: rest => (takeBasic rest).map fun (name, rest) => (String.ofList name, rest)
  | '\'' :: rest => (takeLiteral rest).map fun (name, rest) => (String.ofList name, rest)
  | cs =>
    let name := cs.takeWhile isNameChar
    if name.isEmpty then none else some (String.ofList name, cs.dropWhile isNameChar)

/-- The parts of a key between points, with blanks around them, and what follows. -/
def takeKey (cs : List Char) : Option (List String × List Char) :=
  match takePart (dropSpaces cs) with
  | none => none
  | some (part, rest) =>
    match dropSpaces rest with
    | '.' :: more =>
      if more.length < cs.length then (takeKey more).map fun (parts, rest) =>
        (part :: parts, rest) else none
    | rest => some ([part], rest)
termination_by cs.length

/-- The greatest number of parts a key may have, and of lists and inline tables around an item. -/
def depthLimit : Nat := 79

def takeShortKey (cs : List Char) : Option (List String × List Char) :=
  match takeKey cs with
  | some (key, rest) => if key.length ≤ depthLimit then some (key, rest) else none
  | none => none

/-! ## Items -/

/-- How an item is read from the start of a text. -/
abbrev Take := List Char → Option (Item × List Char)

/-- The items of a list up to its closing bracket, in reverse order, where an item or the bracket
comes next. -/
def takeItems (take : Take) (items : List Item) (cs : List Char) : Option (Item × List Char) :=
  match dropFiller false cs with
  | ']' :: rest => some (.list items.reverse, rest)
  | body =>
    match take body with
    | none => none
    | some (item, rest) =>
      match dropFiller false rest with
      | ']' :: rest => some (.list (item :: items).reverse, rest)
      -- A comma may stand before the closing bracket, which is why the recursion looks for the
      -- bracket first.
      | ',' :: rest => if rest.length < cs.length then takeItems take (item :: items) rest else none
      | _ => none
termination_by cs.length

/-- The fields of an inline table up to its closing brace, where a key comes next. -/
def takeFields (take : Take) (es : Entries) (cs : List Char) : Option (Item × List Char) :=
  match takeShortKey cs with
  | some (key, '=' :: rest) =>
    match take (dropSpaces rest) with
    | none => none
    | some (item, rest) =>
      match assignKey key item es with
      | none => none
      | some es =>
        match dropSpaces rest with
        | '\x7d' :: rest => some (.table .inline es, rest)
        -- Here no comma may stand before the closing brace: a key has to follow.
        | ',' :: rest => if rest.length < cs.length then takeFields take es rest else none
        | _ => none
  | _ => none
termination_by cs.length

/-- **The item at the start of a text,** and what follows it. `depth` more lists and inline tables
may open. -/
def takeItem : Nat → Take
  | depth, cs =>
    match cs with
    | '"' :: _ | '\'' :: _ => (takeText cs).map fun (text, rest) =>
      (.text (String.ofList text), rest)
    | '[' :: rest =>
      match depth with
      | 0 => none
      | depth + 1 => takeItems (takeItem depth) [] rest
    | '\x7b' :: rest =>
      match depth with
      | 0 => none
      | depth + 1 =>
        match dropSpaces rest with
        | '\x7d' :: rest => some (.table .inline [], rest)
        | body => takeFields (takeItem depth) [] body
    | _ => takeScalar cs

/-! ## Statements -/

/-- The outermost table so far, and the path of the table that the last header opened. -/
structure Progress where
  entries : Entries
  path : List String

/-- A header for a table or for a further table of a list, which is what stands between the
brackets. -/
def Progress.open? (p : Progress) (element : Bool) (key : List String) : Option Progress :=
  match key.getLast? with
  | none => none
  | some name =>
    let change := if element then openElement name else openTable name
    (descend change key.dropLast p.entries).map fun es => ⟨es, key⟩

/-- An item under a key, in the table of the last header. -/
def Progress.assign? (p : Progress) (key : List String) (item : Item) : Option Progress :=
  (descend (assignKey key item) p.path p.entries).map fun es => { p with entries := es }

/-- The statement at the start of a text that is not empty, and what follows its line. -/
def takeStatement (p : Progress) (cs : List Char) : Option (Progress × List Char) :=
  match cs with
  | '#' :: _ => (endLine? cs).map fun rest => (p, rest)
  | '\n' :: _ | '\r' :: _ => (dropBreak? cs).map fun rest => (p, rest)
  | '[' :: '[' :: rest =>
    match takeShortKey rest with
    | some (key, ']' :: ']' :: rest) => do
      let p ← p.open? true key
      (endLine? rest).map fun rest => (p, rest)
    | _ => none
  | '[' :: rest =>
    match takeShortKey rest with
    | some (key, ']' :: rest) => do
      let p ← p.open? false key
      (endLine? rest).map fun rest => (p, rest)
    | _ => none
  | cs =>
    match takeShortKey cs with
    | some (key, '=' :: rest) => do
      let (item, rest) ← takeItem depthLimit (dropSpaces rest)
      let rest ← endLine? rest
      let p ← p.assign? key item
      pure (p, rest)
    | _ => none

/-- The statements of a text, one after the other. -/
def takeStatements (p : Progress) (cs : List Char) : Option Progress :=
  match dropSpaces cs with
  | [] => some p
  | body =>
    match takeStatement p body with
    | none => none
    | some (p, rest) => if rest.length < cs.length then takeStatements p rest else none
termination_by cs.length

/-- **The outermost table of a file's text.** A byte order mark at its start does not count. -/
def read? (text : String) : Option Entries :=
  let cs := match text.toList with
    | c :: cs => if c.toNat = 0xFEFF then cs else c :: cs
    | [] => []
  (takeStatements ⟨[], []⟩ cs).map Progress.entries

end AltRender.Toml

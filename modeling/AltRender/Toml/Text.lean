import AltRender.Text.Letters

/-!
# `Toml/Text` — quoted texts

A text stands between double quotes, where a backslash starts an escape, or between single quotes,
where nothing does. Either kind has a form for several lines, with three quotes on each side: a line
break right behind the opening quotes does not count, and one or two quotes may stand anywhere, even
right before the closing ones. In the form with escapes a backslash at the end of a line joins it to
the next text that is not blank.

Reading gives the meaning of a text and what follows it. Writing takes the plainest form that can
hold the text.
-/

set_option autoImplicit false

namespace AltRender.Toml

open AltRender.Text

/-! ## Characters -/

def isSpace (c : Char) : Bool :=
  c == ' ' || c == '\t'

/-- A control character that may not stand in a file as it is. -/
def isControl (c : Char) : Bool :=
  (c.toNat < 32 && c != '\t') || c.toNat == 127

/-- The number that hexadecimal digits write. -/
def hexNumber? (digits : List Char) : Option Nat :=
  digits.foldlM (fun n c => (hexValue? c).map fun d => n * 16 + d) 0

/-- The character with the number that hexadecimal digits write. -/
def hexChar? (digits : List Char) : Option Char :=
  (hexNumber? digits).bind fun n => if n.isValidChar then some (Char.ofNat n) else none

/-- The character that a one-letter escape stands for. -/
def escapeMeaning? (c : Char) : Option Char :=
  match c with
  | 'b' => some (Char.ofNat 8)
  | 't' => some '\t'
  | 'n' => some '\n'
  | 'f' => some (Char.ofNat 12)
  | 'r' => some '\r'
  | '"' => some '"'
  | '\\' => some '\\'
  | _ => none

/-- One more character in front of what was read. -/
def withChar (c : Option Char) (r : Option (List Char × List Char)) :
    Option (List Char × List Char) :=
  match c, r with
  | some c, some (text, rest) => some (c :: text, rest)
  | _, _ => none

/-! ## Reading one line -/

/-- A text with escapes up to its closing quote. -/
def takeBasic : List Char → Option (List Char × List Char)
  | [] => none
  | '"' :: rest => some ([], rest)
  | '\\' :: 'u' :: a :: b :: c :: d :: rest => withChar (hexChar? [a, b, c, d]) (takeBasic rest)
  | '\\' :: 'U' :: a :: b :: c :: d :: e :: f :: g :: h :: rest =>
    withChar (hexChar? [a, b, c, d, e, f, g, h]) (takeBasic rest)
  | '\\' :: c :: rest => withChar (escapeMeaning? c) (takeBasic rest)
  | c :: rest => if isControl c || c == '\\' then none else withChar (some c) (takeBasic rest)

/-- A text without its closing quote is refused. -/
@[simp]
theorem takeBasic_nil : takeBasic [] = none := by
  rw [takeBasic]

/-- A text without escapes up to its closing quote. -/
def takeLiteral : List Char → Option (List Char × List Char)
  | [] => none
  | '\'' :: rest => some ([], rest)
  | c :: rest => if isControl c then none else withChar (some c) (takeLiteral rest)

/-! ## Reading several lines -/

/-- What follows a line break, if there is one. -/
def dropBreak? : List Char → Option (List Char)
  | '\n' :: rest => some rest
  | '\r' :: '\n' :: rest => some rest
  | _ => none

/-- The text behind opening quotes: a line break there does not count. -/
def dropFirstBreak (cs : List Char) : List Char :=
  (dropBreak? cs).getD cs

/-- Whether nothing but blanks stands before the next line break. -/
def endsLine (cs : List Char) : Bool :=
  (dropBreak? (cs.dropWhile isSpace)).isSome

/-- A text of several lines with escapes up to its closing quotes. `joining` is set behind a
backslash at the end of a line, where blanks and line breaks do not count. -/
def takeBasicLines (joining : Bool) : List Char → Option (List Char × List Char)
  | [] => none
  | '"' :: '"' :: '"' :: '"' :: '"' :: rest => some (['"', '"'], rest)
  | '"' :: '"' :: '"' :: '"' :: rest => some (['"'], rest)
  | '"' :: '"' :: '"' :: rest => some ([], rest)
  | '\r' :: '\n' :: rest =>
    if joining then takeBasicLines true rest else withChar (some '\n') (takeBasicLines false rest)
  | '\n' :: rest =>
    if joining then takeBasicLines true rest else withChar (some '\n') (takeBasicLines false rest)
  | '\\' :: 'u' :: a :: b :: c :: d :: rest =>
    withChar (hexChar? [a, b, c, d]) (takeBasicLines false rest)
  | '\\' :: 'U' :: a :: b :: c :: d :: e :: f :: g :: h :: rest =>
    withChar (hexChar? [a, b, c, d, e, f, g, h]) (takeBasicLines false rest)
  | '\\' :: c :: rest =>
    if endsLine (c :: rest) then takeBasicLines true (c :: rest)
    else withChar (escapeMeaning? c) (takeBasicLines false rest)
  | c :: rest =>
    if joining && isSpace c then takeBasicLines true rest
    else if isControl c || c == '\\' then none
    else withChar (some c) (takeBasicLines false rest)

@[simp]
theorem takeBasicLines_nil (joining : Bool) : takeBasicLines joining [] = none := by
  rw [takeBasicLines]

/-- A text of several lines without escapes up to its closing quotes. -/
def takeLiteralLines : List Char → Option (List Char × List Char)
  | [] => none
  | '\'' :: '\'' :: '\'' :: '\'' :: '\'' :: rest => some (['\'', '\''], rest)
  | '\'' :: '\'' :: '\'' :: '\'' :: rest => some (['\''], rest)
  | '\'' :: '\'' :: '\'' :: rest => some ([], rest)
  | '\r' :: '\n' :: rest => withChar (some '\n') (takeLiteralLines rest)
  | '\n' :: rest => withChar (some '\n') (takeLiteralLines rest)
  | c :: rest => if isControl c then none else withChar (some c) (takeLiteralLines rest)

@[simp]
theorem takeLiteralLines_nil : takeLiteralLines [] = none := by
  rw [takeLiteralLines]

/-- **The text at the start of a file's text,** in any of its forms, and what follows it. -/
def takeText : List Char → Option (List Char × List Char)
  | '"' :: '"' :: '"' :: rest => takeBasicLines false (dropFirstBreak rest)
  | '"' :: rest => takeBasic rest
  | '\'' :: '\'' :: '\'' :: rest => takeLiteralLines (dropFirstBreak rest)
  | '\'' :: rest => takeLiteral rest
  | _ => none

/-! ## Writing -/

/-- The length of the longest run of a character; `run` is that of the run right before the text. -/
def longestRun (q : Char) (run : Nat) : List Char → Nat
  | [] => run
  | c :: cs => if c = q then longestRun q (run + 1) cs else max run (longestRun q 0 cs)

/-- A control character that only an escape can stand for: neither a tab nor a line break. -/
def needsEscape (c : Char) : Bool :=
  isControl c && c != '\n'

/-- The forms a text can be written in. -/
inductive Form where
  | basic
  | literal
  | basicLines
  | literalLines
  deriving DecidableEq, Repr

namespace Form

def hasLines : Form → Bool
  | .basicLines | .literalLines => true
  | .basic | .literal => false

def quotes : Form → List Char
  | .basic => ['"']
  | .literal => ['\'']
  | .basicLines => ['"', '"', '"']
  | .literalLines => ['\'', '\'', '\'']

/-- **The form of a text:** the first that can hold it without escapes other than for tabs, and one
with escapes if there is none. -/
def of (text : List Char) : Form :=
  let escapes := text.any needsEscape
  let backslash := text.contains '\\'
  let lines := text.contains '\n'
  let double := longestRun '"' 0 text
  let single := longestRun '\'' 0 text
  if !escapes && !backslash && double = 0 && !lines then .basic
  else if !escapes && single = 0 && !lines then .literal
  else if !escapes && !backslash && double ≤ 2 then .basicLines
  else if !escapes && single ≤ 2 then .literalLines
  else if lines then .basicLines
  else .basic

end Form

/-- A character in a form with escapes, quotes apart. -/
def escapedChar (lines : Bool) (c : Char) : List Char :=
  if c.toNat = 8 then ['\\', 'b']
  else if c = '\t' then ['\\', 't']
  else if c = '\n' then (if lines then ['\n'] else ['\\', 'n'])
  else if c.toNat = 12 then ['\\', 'f']
  else if c = '\r' then ['\\', 'r']
  else if c = '\\' then ['\\', '\\']
  else if isControl c then '\\' :: 'u' :: '0' :: '0' :: hexByte true (UInt8.ofNat c.toNat)
  else [c]

/-- A text in a form with escapes. Of a run of quotes as many as `free` stand as they are, and the
one after them is escaped; `run` is how many stand right before the text. -/
def escapedText (lines : Bool) (free : Nat) (run : Nat) : List Char → List Char
  | [] => []
  | c :: cs =>
    if c = '"' then
      if run < free then '"' :: escapedText lines free (run + 1) cs
      else '\\' :: '"' :: escapedText lines free 0 cs
    else escapedChar lines c ++ escapedText lines free 0 cs

/-- What stands between the quotes of a form. -/
def body (form : Form) (text : List Char) : List Char :=
  match form with
  | .basic => escapedText false 0 0 text
  | .basicLines => escapedText true 2 0 text
  | .literal | .literalLines => text

/-- **A text with its quotes.** In a form for several lines a text with line breaks starts on a line
of its own. -/
def writeText (text : List Char) : List Char :=
  let form := Form.of text
  let start := if form.hasLines && text.contains '\n' then ['\n'] else []
  form.quotes ++ start ++ body form text ++ form.quotes

end AltRender.Toml

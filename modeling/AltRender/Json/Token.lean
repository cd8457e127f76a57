import AltRender.Json.Numeral

/-!
# `Json/Token` — the words of a JSON text

A JSON text is a sequence of tokens with blanks between them. A quoted text is one token: its
escapes are resolved here, and the halves of surrogate pairs that stand next to each other are
joined. A half that is left alone makes the token one that stands for no text, but a token all the
same.

So the reader of values never looks at a character, and a text that is spoilt anywhere has no tokens
at all. A number has a form of its own, narrower than that of an annotation: no sign but a minus,
digits on both sides of a point, and no zero in front of other digits.
-/

set_option autoImplicit false

namespace AltRender.Json

open AltRender.Text

inductive Token where
  | openList
  | closeList
  | openObject
  | closeObject
  | comma
  | colon
  | null
  | flag (b : Bool)
  | number (literal : String)
  /-- A quoted text; `none` if half a surrogate pair stands alone in it. -/
  | text (s : Option String)
  deriving DecidableEq, Repr

/-! ## Quoted texts -/

/-- What one piece of a quoted text stands for. -/
inductive Piece where
  | character (c : Char)
  | half (unit : Nat)
  deriving DecidableEq, Repr

/-- The piece with a given number in UTF-16. -/
def Piece.ofUnit (n : Nat) : Piece :=
  if 0xD800 ≤ n ∧ n < 0xE000 then .half n else .character (Char.ofNat n)

/-- The character that two halves make, if the first is a high and the second a low one. -/
def pairOf? (high low : Nat) : Option Char :=
  if high < 0xDC00 ∧
    0xDC00 ≤ low then some (Char.ofNat (0x10000 + (high - 0xD800) * 0x400 + (low - 0xDC00)))
  else none

/-- The characters of pieces, if every half has its other half next to it. -/
def joinPieces : List Piece → Option (List Char)
  | [] => some []
  | .character c :: rest => (joinPieces rest).map (c :: ·)
  | .half high :: .half low :: rest =>
    match pairOf? high low with
    | some c => (joinPieces rest).map (c :: ·)
    | none => none
  | .half _ :: _ => none

/-- The character that a one-letter escape stands for. -/
def escapeMeaning? (c : Char) : Option Char :=
  match c with
  | '"' => some '"'
  | '\\' => some '\\'
  | '/' => some '/'
  | 'b' => some (Char.ofNat 8)
  | 'f' => some (Char.ofNat 12)
  | 'n' => some '\n'
  | 'r' => some '\r'
  | 't' => some '\t'
  | _ => none

/-- The number that four hexadecimal digits write. -/
def hexFour? (a b c d : Char) : Option Nat := do
  let a ← hexValue? a
  let b ← hexValue? b
  let c ← hexValue? c
  let d ← hexValue? d
  pure (((a * 16 + b) * 16 + c) * 16 + d)

/-- One more piece in front. -/
private def withPiece (p : Option Piece) (r : Option (List Piece × List Char)) :
    Option (List Piece × List Char) :=
  match p, r with
  | some p, some (ps, rest) => some (p :: ps, rest)
  | _, _ => none

/-- The pieces up to the closing quote, and what follows that. -/
def takePieces : List Char → Option (List Piece × List Char)
  | [] => none
  | '"' :: rest => some ([], rest)
  -- With fewer than four characters left, `u` is no escape and is refused below.
  | '\\' :: 'u' :: a :: b :: c :: d :: rest =>
    withPiece ((hexFour? a b c d).map Piece.ofUnit) (takePieces rest)
  | '\\' :: c :: rest => withPiece ((escapeMeaning? c).map Piece.character) (takePieces rest)
  | c :: rest =>
    if c.toNat < 32 ∨ c = '\\' then none else withPiece (some (.character c)) (takePieces rest)

/-! ## Tokens -/

def dropWord : List Char → List Char → Option (List Char)
  | [], cs => some cs
  | w :: ws, c :: cs => if w = c then dropWord ws cs else none
  | _ :: _, [] => none

/-- The token that a text starts with, and what follows it. -/
def takeToken (cs : List Char) : Option (Token × List Char) :=
  match cs with
  | '[' :: rest => some (.openList, rest)
  | ']' :: rest => some (.closeList, rest)
  | '\x7b' :: rest => some (.openObject, rest)
  | '\x7d' :: rest => some (.closeObject, rest)
  | ',' :: rest => some (.comma, rest)
  | ':' :: rest => some (.colon, rest)
  | '"' :: rest => (takePieces rest).map fun (ps, rest) =>
    (.text ((joinPieces ps).map String.ofList), rest)
  | 'n' :: rest => (dropWord "ull".toList rest).map fun rest => (.null, rest)
  | 't' :: rest => (dropWord "rue".toList rest).map fun rest => (.flag true, rest)
  | 'f' :: rest => (dropWord "alse".toList rest).map fun rest => (.flag false, rest)
  | cs =>
    (Numeral.take cs).map fun (_, rest) =>
      (.number (String.ofList (cs.take (cs.length - rest.length))), rest)

def isSpace (c : Char) : Bool :=
  c == ' ' || c == '\n' || c == '\t' || c == '\r'

/-- The tokens of a text. Each takes at least one character away. -/
def tokens? (cs : List Char) : Option (List Token) :=
  let body := cs.dropWhile isSpace
  if body.isEmpty then some []
  else
    match takeToken body with
    | none => none
    | some (token, rest) =>
      if rest.length < cs.length then (tokens? rest).map (token :: ·) else none
termination_by cs.length

end AltRender.Json

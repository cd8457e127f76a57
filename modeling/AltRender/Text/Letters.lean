/-!
# `Text/Letters` — the ASCII classes the formats are written in

Directive names, hexadecimal digits and file-name characters are ASCII by rule: a fullwidth digit or
a letter with an accent never belongs to one of these classes, whatever Unicode says about it.
Changes of case touch ASCII letters alone for the same reason.

They are functions of one character that can be computed, so a fact about one class or about two of
them is settled by trying the 128 characters there are. A text in UTF-8 has these characters as
single bytes, which is why its reader may look for them byte by byte.
-/

set_option autoImplicit false

namespace AltRender.Text

def isDigit (c : Char) : Bool :=
  '0' ≤ c && c ≤ '9'

/-- A letter of the Latin alphabet without marks. -/
def isLetter (c : Char) : Bool :=
  ('a' ≤ c && c ≤ 'z') || ('A' ≤ c && c ≤ 'Z')

/-- A character of a directive name, an argument key or a sanitized file name: `[A-Za-z0-9_-]`. -/
def isNameChar (c : Char) : Bool :=
  isLetter c || isDigit c || c == '_' || c == '-'

/-- The capital letters `A` to `Z` in lower case; every other character as it is. -/
def lowerLetter (c : Char) : Char :=
  if 'A' ≤ c && c ≤ 'Z' then Char.ofNat (c.toNat + 32) else c

def lower (cs : List Char) : List Char :=
  cs.map lowerLetter

def digitValue (c : Char) : Nat :=
  c.toNat - '0'.toNat

/-- The number that a run of decimal digits writes. -/
def digitsValue (cs : List Char) : Nat :=
  cs.foldl (fun n c => n * 10 + digitValue c) 0

def hexValue? (c : Char) : Option Nat :=
  if isDigit c then some (digitValue c)
  else if 'a' ≤ c && c ≤ 'f' then some (c.toNat - 'a'.toNat + 10)
  else if 'A' ≤ c && c ≤ 'F' then some (c.toNat - 'A'.toNat + 10)
  else none

/-- The hexadecimal digit of a value below sixteen, with capital letters if `capital` is set. -/
def hexDigit (capital : Bool) (n : Nat) : Char :=
  if n < 10 then Char.ofNat ('0'.toNat + n)
  else if capital then Char.ofNat ('A'.toNat + (n - 10))
  else Char.ofNat ('a'.toNat + (n - 10))

/-- Two hexadecimal digits for one byte. -/
def hexByte (capital : Bool) (b : UInt8) : List Char :=
  [hexDigit capital (b.toNat / 16), hexDigit capital (b.toNat % 16)]

/-- How many bytes the text takes in UTF-8. -/
def byteLength : List Char → Nat
  | [] => 0
  | c :: cs => c.utf8Size + byteLength cs

@[simp] theorem byteLength_nil : byteLength [] = 0 := rfl

@[simp] theorem byteLength_cons (c : Char) (cs : List Char) :
    byteLength (c :: cs) = c.utf8Size + byteLength cs := rfl

@[simp] theorem byteLength_append (as bs : List Char) :
    byteLength (as ++ bs) = byteLength as + byteLength bs := by
  induction as with
  | nil => simp
  | cons c cs ih => simp [ih, Nat.add_assoc]

end AltRender.Text

import AltRender.Text.Invisible
import AltRender.Text.Letters

/-!
# `Text/Quoted` — texts as listings quote them

A listing puts a text between double quotes and escapes what would be misread or not be seen: quotes
and backslashes, line ends and tabs by their letters, and every other invisible character by its
number.

A listing is for reading by eye: nothing here reads it back. Characters that can be seen stay as
they are, whatever script they are of.
-/

set_option autoImplicit false

namespace AltRender.Text

/-- A number in hexadecimal digits, without leading zeros. -/
def hexText (n : Nat) : List Char :=
  Nat.toDigits 16 n

/-- A character between the quotes of a listing. -/
def shown (c : Char) : List Char :=
  if c = '"' then ['\\', '"']
  else if c = '\\' then ['\\', '\\']
  else if c = '\n' then ['\\', 'n']
  else if c = '\r' then ['\\', 'r']
  else if c = '\t' then ['\\', 't']
  else if c.toNat = 0 then ['\\', '0']
  else if isInvisible c then '\\' :: 'u' :: '\x7b' :: hexText c.toNat ++ ['\x7d']
  else [c]

/-- **A text as a listing shows it.** -/
def listed (s : String) : String :=
  "\"" ++ String.ofList (s.toList.flatMap shown) ++ "\""

def listedAll (texts : List String) : String :=
  "[" ++ String.intercalate ", " (texts.map listed) ++ "]"

end AltRender.Text

/-!
# `Text/Bytes` — texts by their bytes

To the rest of this library a text is its characters. In memory it is the bytes of its characters in
UTF-8, one to four for each, and who goes through the bytes can go wrong in ways that there are not
for characters: ask for a byte behind the end, cut in the middle of a character, count below zero.
Here each of these is a *slip*, and every access to bytes is checked for it.

That a reader has no slip is said with each of them, and proved with it. `Proofs/Text/Bytes` has
what is shared: where the characters of a text begin, which bytes they have, and what a part between
two of them is.
-/

set_option autoImplicit false

namespace AltRender.Text

/-- The bytes of a text in UTF-8. -/
def utf8 (cs : List Char) : List UInt8 :=
  cs.flatMap String.utf8EncodeChar

/-- What a reader of bytes must not do. -/
inductive Slip where
  /-- It asks for a byte behind the end. -/
  | beyondEnd (index : Nat)
  /-- It cuts out a part whose bounds are out of order, behind the end or inside a character. -/
  | badCut (start stop : Nat)
  /-- It takes bytes for a text that are none. -/
  | noText
  /-- It counts below zero. -/
  | belowZero
  deriving DecidableEq, Repr

def byteAt (bytes : List UInt8) (i : Nat) : Except Slip UInt8 :=
  match bytes[i]? with
  | some b => .ok b
  | none => .error (.beyondEnd i)

def oneLess (i : Nat) : Except Slip Nat :=
  if i = 0 then .error .belowZero else .ok (i - 1)

/-- Whether a byte belongs to a character that an earlier byte has begun. -/
def isContinuation (b : UInt8) : Bool :=
  0x80 ≤ b && b < 0xC0

/-- Whether a character begins at an offset, or the text ends there. -/
def isBoundary (bytes : List UInt8) (i : Nat) : Bool :=
  i == 0 || i == bytes.length || (bytes[i]?).any fun b => !isContinuation b

/-- **The part of a text between two offsets in its bytes.** -/
def slice (text : String) (start stop : Nat) : Except Slip String :=
  let bytes := utf8 text.toList
  if start ≤ stop ∧ stop ≤ bytes.length ∧ isBoundary bytes start = true ∧
    isBoundary bytes stop = true then
    match String.fromUTF8? ((bytes.take stop).drop start).toByteArray with
    | some part => .ok part
    | none => .error .noText
  else .error (.badCut start stop)

end AltRender.Text

import AltRender.Directive.Annotation
import AltRender.Text.Bytes

/-!
# `Directive/Bytes` — annotations read by their bytes

The directives of a text can be read without taking it apart into characters: every mark of the
language is a single byte, and no byte of a longer character looks like one. This reader goes from
offset to offset through the bytes and cuts names and arguments out of the text where they stand.
Inside quotes a backslash makes it pass over one byte, which may be the first one of a longer
character or lie behind the end of the text.

Whatever it does to the bytes is checked, so that a result means that there was no slip.
-/

set_option autoImplicit false

namespace AltRender.Directive.Bytes

open AltRender.Text

/-- A byte of a directive's name or of a key. -/
def isNameByte (b : UInt8) : Bool :=
  ('a'.toUInt8 ≤ b && b ≤ 'z'.toUInt8) || ('A'.toUInt8 ≤ b && b ≤ 'Z'.toUInt8) ||
    ('0'.toUInt8 ≤ b && b ≤ '9'.toUInt8) || b == '_'.toUInt8 || b == '-'.toUInt8

/-! ## The closing parenthesis -/

/-- Reads on from an offset to the parenthesis that closes the argument list that starts at `start`.
`quote` is the offset of the quote that was read last. -/
def closingFrom (bytes : List UInt8) (start : Nat) (quoted : Bool) (quote i : Nat) :
    Except Slip (Except Problem Nat) :=
  if i < bytes.length then do
    let b ← byteAt bytes i
    if b = '\\'.toUInt8 ∧ quoted = true then closingFrom bytes start quoted quote (i + 2)
    else if b = '"'.toUInt8 then closingFrom bytes start (!quoted) i (i + 1)
    else if b = ')'.toUInt8 ∧ quoted = false then return .ok i
    else if b = '('.toUInt8 ∧ quoted = false then return .error (.unbalanced i)
    else closingFrom bytes start quoted quote (i + 1)
  else if quoted = true then return .error (.unterminated quote)
  else return .error (.unbalanced (← oneLess start))
termination_by bytes.length - i

/-- **The offset of the parenthesis that closes the argument list** that starts at an offset. -/
def closing (bytes : List UInt8) (start : Nat) : Except Slip (Except Problem Nat) :=
  closingFrom bytes start false start start

/-! ## Cutting at a delimiter -/

/-- Reads on from an offset, with the piece that is being read begun at `start`. -/
def piecesFrom (text : String) (delimiter : UInt8) (start : Nat) (quoted : Bool) (i : Nat) :
    Except Slip (List String) :=
  if i < (utf8 text.toList).length then do
    let b ← byteAt (utf8 text.toList) i
    if b = '\\'.toUInt8 ∧ quoted = true then piecesFrom text delimiter start quoted (i + 2)
    else if b = '"'.toUInt8 then piecesFrom text delimiter start (!quoted) (i + 1)
    else if b = delimiter ∧ quoted = false then
      return (← slice text start i) :: (← piecesFrom text delimiter (i + 1) quoted (i + 1))
    else piecesFrom text delimiter start quoted (i + 1)
  else return [← slice text start (utf8 text.toList).length]
termination_by (utf8 text.toList).length - i

/-- **The pieces of a text between the delimiters outside quotes.** -/
def pieces (text : String) (delimiter : Char) : Except Slip (List String) :=
  piecesFrom text delimiter.toUInt8 0 false 0

/-! ## Arguments -/

/-- The text without the blanks at its two ends. -/
def trimmed (s : String) : String :=
  String.ofList (trim s.toList)

def isKey (s : String) : Bool :=
  !s.isEmpty && (utf8 s.toList).all isNameByte

/-- The key and the value of an entry, which has been cut at its equals signs. -/
def readParts (entry : String) : List String → Except Problem (String × Value)
  | [key] => if isKey key then .ok (key, .flag true) else .error (.badKey key)
  | [key, value] =>
    if isKey key then
      match readValue value.toList with
      | some v => .ok (key, v)
      | none => .error (.badValue key value)
    else .error (.badKey key)
  | _ => .error (.badValue entry entry)

def readEntry (entry : String) : Except Slip (Except Problem (String × Value)) :=
  return readParts entry ((← pieces entry '=').map trimmed)

/-- The entries that are not blank, put one after the other under their keys. -/
def readEntries (parameters : Parameters) : List String → Except Slip (Except Problem Parameters)
  | [] => return .ok parameters
  | piece :: rest =>
    if (trimmed piece).isEmpty then readEntries parameters rest
    else do
      match ← readEntry (trimmed piece) with
      | .error problem => return .error problem
      | .ok (key, value) => readEntries (parameters.insert key value) rest

/-- **The arguments between two parentheses.** -/
def readArguments (arguments : String) : Except Slip (Except Problem Parameters) := do
  readEntries Keyed.empty (← pieces arguments ',')

/-! ## Directives -/

/-- The first offset from `i` on that has no byte of a name. -/
def nameEnd (bytes : List UInt8) (i : Nat) : Except Slip Nat :=
  if i < bytes.length then do
    if isNameByte (← byteAt bytes i) then nameEnd bytes (i + 1) else return i
  else return i
termination_by bytes.length - i

/-- The argument list that starts at an offset: its arguments, and the offset of the parenthesis
that closes it. -/
def readList (text : String) (start : Nat) : Except Slip (Except Problem (Parameters × Nat)) := do
  match ← closing (utf8 text.toList) start with
  | .error problem => return .error problem
  | .ok close =>
    match ← readArguments (← slice text start close) with
    | .error problem => return .error problem
    | .ok parameters => return .ok (parameters, close)

/-- Where the reader stands: the offset of the next byte, and the offset at which the last name
ended. -/
structure Mark where
  offset : Nat
  named : Nat

/-- Whether the byte before a mark belongs to a word that is not the name that was read last. -/
def isAttached (bytes : List UInt8) (m : Mark) : Except Slip Bool :=
  if 0 < m.offset ∧ m.offset ≠ m.named then do
    return isNameByte (← byteAt bytes (← oneLess m.offset))
  else return false

/-- The directive with its `@` at an offset and its name from there to another one, and where
reading goes on behind it. -/
def readDirective (text : String) (offset stop : Nat) : Except Slip (Attempt × Mark) := do
  let name ← slice text (offset + 1) stop
  if (utf8 text.toList)[stop]? = some '('.toUInt8 then
    match ← readList text (stop + 1) with
    | .ok (parameters, close) => return (⟨offset, name, .ok parameters⟩, ⟨close + 1, stop⟩)
    | .error problem => return (⟨offset, name, .error problem⟩, ⟨stop, stop⟩)
  else return (⟨offset, name, .ok Keyed.empty⟩, ⟨stop, stop⟩)

/-- What the byte at a mark begins: a directive, or nothing. Reading goes on at the mark that is
returned. -/
def readAt (text : String) (m : Mark) : Except Slip (Option Attempt × Mark) := do
  let bytes := utf8 text.toList
  if (← byteAt bytes m.offset) ≠ '@'.toUInt8 then return (none, ⟨m.offset + 1, m.named⟩)
  else if ← isAttached bytes m then return (none, ⟨m.offset + 1, m.named⟩)
  else
    let stop ← nameEnd bytes (m.offset + 1)
    if stop = m.offset + 1 then return (none, ⟨m.offset + 1, m.named⟩)
    else
      let (attempt, next) ← readDirective text m.offset stop
      return (some attempt, next)

/-! ## Reading goes forward -/

/-- A computation that succeeds has a first step that does. -/
theorem exists_of_bind_ok {ε α β : Type} {x : Except ε α} {f : α → Except ε β} {b : β}
    (h : x >>= f = .ok b) : ∃ a, x = .ok a ∧ f a = .ok b := by
  cases x with
  | error e => exact absurd h (by simp [bind, Except.bind])
  | ok a => exact ⟨a, rfl, h⟩

theorem le_of_closingFrom {bytes : List UInt8} {start : Nat} {quoted : Bool} {quote i close : Nat}
    (h : closingFrom bytes start quoted quote i = .ok (.ok close)) : i ≤ close := by
  fun_induction closingFrom bytes start quoted quote i with
  | case1 quoted quote i hi ihSkip ihQuote ihNext =>
    obtain ⟨b, -, h⟩ := exists_of_bind_ok h
    split at h
    · have := ihSkip h
      omega
    · split at h
      · have := ihQuote h
        omega
      · split at h
        · exact Nat.le_of_eq (Except.ok.inj (Except.ok.inj h))
        · split at h
          · exact absurd h (by simp [pure, Except.pure])
          · have := ihNext h
            omega
  | case2 quote i hi => exact absurd h (by simp [pure, Except.pure])
  | case3 quoted quote i hi hquoted =>
    obtain ⟨n, -, h⟩ := exists_of_bind_ok h
    exact absurd h (by simp [pure, Except.pure])

theorem le_of_nameEnd {bytes : List UInt8} {i stop : Nat} (h : nameEnd bytes i = .ok stop) :
    i ≤ stop := by
  fun_induction nameEnd bytes i with
  | case1 i hi ih =>
    obtain ⟨b, -, h⟩ := exists_of_bind_ok h
    split at h
    · have := ih h
      omega
    · exact Nat.le_of_eq (Except.ok.inj h)
  | case2 i hi => exact Nat.le_of_eq (Except.ok.inj h)

theorem le_of_readList {text : String} {start close : Nat} {parameters : Parameters}
    (h : readList text start = .ok (.ok (parameters, close))) : start ≤ close := by
  obtain ⟨outcome, hclosing, h⟩ := exists_of_bind_ok h
  cases outcome with
  | error problem => exact absurd h (by simp [pure, Except.pure])
  | ok close' =>
    obtain ⟨arguments, -, h⟩ := exists_of_bind_ok h
    obtain ⟨outcome, -, h⟩ := exists_of_bind_ok h
    cases outcome with
    | error problem => exact absurd h (by simp [pure, Except.pure])
    | ok parameters' =>
      obtain rfl : close' = close := congrArg Prod.snd (Except.ok.inj (Except.ok.inj h))
      exact le_of_closingFrom hclosing

theorem le_of_readDirective {text : String} {offset stop : Nat} {attempt : Attempt} {next : Mark}
    (h : readDirective text offset stop = .ok (attempt, next)) : stop ≤ next.offset := by
  obtain ⟨name, -, h⟩ := exists_of_bind_ok h
  split at h
  · obtain ⟨outcome, hlist, h⟩ := exists_of_bind_ok h
    cases outcome with
    | error problem =>
      obtain rfl := congrArg Prod.snd (Except.ok.inj h)
      exact Nat.le_refl _
    | ok result =>
      obtain ⟨parameters, close⟩ := result
      obtain rfl := congrArg Prod.snd (Except.ok.inj h)
      have := le_of_readList hlist
      show stop ≤ close + 1
      omega
  · obtain rfl := congrArg Prod.snd (Except.ok.inj h)
    exact Nat.le_refl _

/-- The reader comes to no mark twice. -/
theorem lt_of_readAt {text : String} {m next : Mark} {attempt : Option Attempt}
    (h : readAt text m = .ok (attempt, next)) : m.offset < next.offset := by
  obtain ⟨b, -, h⟩ := exists_of_bind_ok h
  split at h
  · obtain rfl := congrArg Prod.snd (Except.ok.inj h)
    exact Nat.lt_succ_self _
  · obtain ⟨attached, -, h⟩ := exists_of_bind_ok h
    split at h
    · obtain rfl := congrArg Prod.snd (Except.ok.inj h)
      exact Nat.lt_succ_self _
    · obtain ⟨stop, hstop, h⟩ := exists_of_bind_ok h
      split at h
      · obtain rfl := congrArg Prod.snd (Except.ok.inj h)
        exact Nat.lt_succ_self _
      · obtain ⟨⟨attempt', next'⟩, hdirective, h⟩ := exists_of_bind_ok h
        obtain rfl : next' = next := congrArg Prod.snd (Except.ok.inj h)
        have := le_of_nameEnd hstop
        have := le_of_readDirective hdirective
        omega

/-! ## Annotations -/

/-- The attempts from a mark on. -/
def attemptsFrom (text : String) (m : Mark) : Except Slip (List Attempt) :=
  if m.offset < (utf8 text.toList).length then
    match h : readAt text m with
    | .error slip => .error slip
    | .ok (attempt, next) =>
      have := lt_of_readAt h
      return attempt.toList ++ (← attemptsFrom text next)
  else return []
termination_by (utf8 text.toList).length - m.offset

/-- **The attempts of an annotation,** in the order of the text. -/
def attempts (text : String) : Except Slip (List Attempt) :=
  attemptsFrom text ⟨0, 0⟩

end AltRender.Directive.Bytes

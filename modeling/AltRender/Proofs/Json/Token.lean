import AltRender.Json.Basic
import AltRender.Json.Token
import AltRender.Proofs.Directive.Written

/-!
# `Proofs/Json/Token` — tokens of written texts and numbers

A quoted text is written character by character, and each of the three ways to write one is read as
that character (`escaped_cases`, `takePieces_escaped`), so the whole is one token, whatever
characters it has. A number ends where a character follows that it cannot go on with: before such a
character it is read as it is read alone (`Numeral.take_append`).

The two kinds are different in where they end. A text says so itself, by its closing quote, and
nothing in it can be taken for that: quotes and backslashes are written with a backslash, control
characters by their numbers. A number does not say it. It goes on as far as characters follow that a
number may have, and so the text behind it matters, which is a comma, a closing bracket or a line
break in all that is written.
-/

set_option autoImplicit false

namespace AltRender.Json

open AltRender.Text

/-! ## Quoted texts -/

theorem joinPieces_character (cs : List Char) : joinPieces (cs.map .character) = some cs := by
  induction cs with
  | nil => rfl
  | cons c cs ih => rw [List.map_cons, joinPieces, ih, Option.map_some]

/-- One more piece before the others. -/
def pieceBefore (c : Char) (read : Option (List Piece × List Char)) :
    Option (List Piece × List Char) :=
  read.map fun (ps, rest) => (.character c :: ps, rest)

theorem takePieces_letter {letter c : Char} (hletter : letter ≠ 'u')
    (h : escapeMeaning? letter = some c) (rest : List Char) :
    takePieces ('\\' :: letter :: rest) = pieceBefore c (takePieces rest) := by
  rw [takePieces]
  · rw [h]
    cases takePieces rest <;> rfl
  · simp [hletter]

theorem takePieces_control {c : Char} (h : c.toNat < 32) (rest : List Char) :
    takePieces ('\\' :: 'u' :: '0' :: '0' :: (hexByte false (UInt8.ofNat c.toNat) ++ rest)) =
      pieceBefore c (takePieces rest) := by
  have hunit : c.toNat < 32 → (hexFour? '0' '0' (hexDigit false ((UInt8.ofNat c.toNat).toNat / 16))
      (hexDigit false ((UInt8.ofNat c.toNat).toNat % 16))).map Piece.ofUnit = some (.character c) :=
    Directive.of_ascii
      (P := fun c => c.toNat < 32 →
        (hexFour? '0' '0' (hexDigit false ((UInt8.ofNat c.toNat).toNat / 16))
          (hexDigit false ((UInt8.ofNat c.toNat).toNat % 16))).map Piece.ofUnit =
            some (.character c))
      (by decide +kernel) (Nat.lt_trans h (by decide))
  rw [hexByte]
  show takePieces ('\\' :: 'u' :: '0' :: '0' :: hexDigit false _ :: hexDigit false _ :: rest) = _
  rw [takePieces, hunit h]
  cases takePieces rest <;> rfl

/-- The letters that characters are written with behind a backslash. -/
def letters : List Char := ['"', '\\', 'n', 'r', 't', 'b', 'f']

/-- The three ways to write a character: a backslash and a letter, a backslash and its number, and
itself. -/
theorem escaped_cases (c : Char) :
    (∃ letter ∈ letters, escapeMeaning? letter = some c ∧ escaped c = ['\\', letter]) ∨
      (c.toNat < 32 ∧
        escaped c = '\\' :: 'u' :: '0' :: '0' :: hexByte false (UInt8.ofNat c.toNat)) ∨
      (¬ c.toNat < 32 ∧ c ≠ '"' ∧ c ≠ '\\' ∧ escaped c = [c]) := by
  by_cases hascii : c.toNat < 128
  · have hletter := Directive.of_ascii (P := fun c =>
      (letters.any fun letter => escapeMeaning? letter == some c && escaped c == ['\\', letter]) =
        true ∨
        (c.toNat < 32 ∧
          escaped c = '\\' :: 'u' :: '0' :: '0' :: hexByte false (UInt8.ofNat c.toNat)) ∨
        (¬ c.toNat < 32 ∧ c ≠ '"' ∧ c ≠ '\\' ∧ escaped c = [c])) (by decide +kernel) hascii
    simpa only [List.any_eq_true, Bool.and_eq_true, beq_iff_eq] using hletter
  · have hne : ∀ d : Char, d.toNat < 128 → c ≠ d := by
      rintro d hd rfl
      exact hascii hd
    refine .inr (.inr ⟨by omega, hne '"' (by decide), hne '\\' (by decide), ?_⟩)
    rw [escaped, if_neg (hne '"' (by decide)), if_neg (hne '\\' (by decide)),
      if_neg (hne '\n' (by decide)), if_neg (hne '\r' (by decide)), if_neg (hne '\t' (by decide)),
      if_neg (by omega), if_neg (by omega), if_neg (by omega)]

/-- **What is written for a character is read as this character.** -/
theorem takePieces_escaped (c : Char) (rest : List Char) :
    takePieces (escaped c ++ rest) = pieceBefore c (takePieces rest) := by
  rcases escaped_cases c with
    ⟨letter, hletter, hmeaning, hescaped⟩ | ⟨hcontrol, hescaped⟩ | ⟨hplain, hquote, hbackslash,
      hescaped⟩
  · have hu : letter ≠ 'u' := by
      rintro rfl
      exact absurd hletter (by decide)
    rw [hescaped]
    exact takePieces_letter hu hmeaning rest
  · rw [hescaped]
    exact takePieces_control hcontrol rest
  · rw [hescaped, List.singleton_append, takePieces, if_neg (not_or.mpr ⟨hplain, hbackslash⟩)]
    · cases takePieces rest <;> rfl
    all_goals simp [hquote, hbackslash]

/-- A quoted text up to its closing quote. -/
theorem takePieces_quoted (cs rest : List Char) :
    takePieces (cs.flatMap escaped ++ '"' :: rest) = some (cs.map .character, rest) := by
  induction cs with
  | nil => rfl
  | cons c cs ih =>
    rw [List.flatMap_cons, List.append_assoc, takePieces_escaped, ih]
    rfl

/-- **A quoted text is one token,** whatever characters it has. -/
theorem takeToken_quoted (s : String) (rest : List Char) :
    takeToken (quoted s ++ rest) = some (.text (some s), rest) := by
  have hbody : quoted s ++ rest = '"' :: (s.toList.flatMap escaped ++ '"' :: rest) := by
    simp [quoted]
  rw [hbody]
  show (takePieces _).map _ = _
  rw [takePieces_quoted, Option.map_some]
  simp only [joinPieces_character, Option.map_some, String.ofList_toList]

/-! ## Numbers -/

namespace Numeral

/-- A character that a number may go on with. -/
def goesOn (c : Char) : Bool :=
  isDigit c || c == '.' || c == 'e' || c == 'E' || c == '+' || c == '-'

section Behind

variable {d : Char} {ds : List Char}

theorem splitSign_append (hd : goesOn d = false) (cs : List Char) :
    Decimal.splitSign (cs ++ d :: ds) =
      ((Decimal.splitSign cs).1, (Decimal.splitSign cs).2 ++ d :: ds) := by
  cases cs with
  | nil =>
    have hminus : d ≠ '-' := by rintro rfl; exact absurd hd (by decide)
    have hplus : d ≠ '+' := by rintro rfl; exact absurd hd (by decide)
    simp [Decimal.splitSign, hminus, hplus]
  | cons c cs =>
    rw [List.cons_append]
    by_cases hminus : c = '-'
    · subst hminus
      rfl
    · by_cases hplus : c = '+'
      · subst hplus
        rfl
      · simp [Decimal.splitSign, hminus, hplus]

theorem digits_append (hd : goesOn d = false) (cs ds : List Char) :
    (cs ++ d :: ds).takeWhile isDigit = cs.takeWhile isDigit ∧
      (cs ++ d :: ds).dropWhile isDigit = cs.dropWhile isDigit ++ d :: ds := by
  have hdigit : isDigit d = false := by
    simp only [goesOn, Bool.or_eq_false_iff] at hd
    exact hd.1.1.1.1.1
  exact ⟨Directive.takeWhile_append_of_neg hdigit _ _, Directive.dropWhile_append_of_neg hdigit _ _⟩

theorem takeFraction_append (hd : goesOn d = false) (cs : List Char) :
    takeFraction (cs ++ d :: ds) = ((takeFraction cs).1, (takeFraction cs).2 ++ d :: ds) := by
  cases cs with
  | nil =>
    have hpoint : d ≠ '.' := by rintro rfl; exact absurd hd (by decide)
    simp [takeFraction, hpoint]
  | cons c cs =>
    by_cases hpoint : c = '.'
    · subst hpoint
      obtain ⟨htake, hdrop⟩ := digits_append hd cs ds
      rw [List.cons_append, takeFraction, takeFraction, htake, hdrop]
      split <;> rfl
    · simp [takeFraction, hpoint]

theorem takeExponent_append (hd : goesOn d = false) (cs : List Char) :
    takeExponent (cs ++ d :: ds) = ((takeExponent cs).1, (takeExponent cs).2 ++ d :: ds) := by
  cases cs with
  | nil =>
    have hletter : ¬ (d = 'e' ∨ d = 'E') := by rintro (rfl | rfl) <;> exact absurd hd (by decide)
    simp [takeExponent, hletter]
  | cons c cs =>
    obtain ⟨htake, hdrop⟩ := digits_append hd (Decimal.splitSign cs).2 ds
    simp only [List.cons_append, takeExponent, splitSign_append hd, htake, hdrop]
    split <;> rfl

theorem takeWhole_append (hd : goesOn d = false) (cs : List Char) :
    takeWhole (cs ++ d :: ds) = (takeWhole cs).map fun r => (r.1, r.2 ++ d :: ds) := by
  obtain ⟨htake, hdrop⟩ := digits_append hd cs ds
  by_cases hzero : ∃ rest, cs = '0' :: rest
  · obtain ⟨rest, rfl⟩ := hzero
    rfl
  · have hplain : takeWhole cs = if (cs.takeWhile isDigit).isEmpty then none
        else some (cs.takeWhile isDigit, cs.dropWhile isDigit) := by
      rw [takeWhole]
      rintro rest rfl
      exact hzero ⟨rest, rfl⟩
    have hplain' : takeWhole (cs ++ d :: ds) = if (cs.takeWhile isDigit).isEmpty then none
        else some (cs.takeWhile isDigit, cs.dropWhile isDigit ++ d :: ds) := by
      rw [takeWhole, htake, hdrop]
      intro rest h
      cases cs with
      | nil =>
        obtain ⟨rfl, -⟩ := List.cons.inj h
        exact absurd hd (by decide)
      | cons c cs =>
        obtain ⟨rfl, -⟩ := List.cons.inj h
        exact hzero ⟨cs, rfl⟩
    rw [hplain, hplain']
    split <;> rfl

/-- The number with the digits before the point and what follows them. -/
def finish (negative : Bool) (r : List Char × List Char) : Numeral × List Char :=
  (⟨negative, r.1, (takeFraction r.2).1, (takeExponent (takeFraction r.2).2).1⟩,
    (takeExponent (takeFraction r.2).2).2)

theorem take_minus (cs : List Char) : take ('-' :: cs) = (takeWhole cs).map (finish true) := rfl

theorem take_plain {cs : List Char} (h : cs.head? ≠ some '-') :
    take cs = (takeWhole cs).map (finish false) := by
  unfold take
  split
  rename_i heq
  split at heq
  · exact absurd rfl h
  · obtain ⟨rfl, rfl⟩ := Prod.mk.inj heq
    rfl

/-- **A number is read alike before what it cannot go on with.** -/
theorem take_append (hd : goesOn d = false) (cs : List Char) :
    take (cs ++ d :: ds) = (take cs).map fun r => (r.1, r.2 ++ d :: ds) := by
  have hbody : ∀ (negative : Bool) (unsigned : List Char),
    (takeWhole (unsigned ++ d :: ds)).map (finish negative) =
      ((takeWhole unsigned).map (finish negative)).map fun r => (r.1, r.2 ++ d :: ds) := by
    intro negative unsigned
    rw [takeWhole_append hd, Option.map_map, Option.map_map]
    congr 1
    funext r
    simp only [Function.comp, finish, takeFraction_append hd, takeExponent_append hd]
  have hminus : d ≠ '-' := by
    rintro rfl
    exact absurd hd (by decide)
  cases cs with
  | nil =>
    rw [take_plain (by simp [hminus]), take_plain (by simp)]
    exact hbody false []
  | cons c cs =>
    by_cases hc : c = '-'
    · subst hc
      rw [List.cons_append, take_minus, take_minus]
      exact hbody true cs
    · rw [take_plain (by simp [hc]), take_plain (by simp [hc])]
      exact hbody false (c :: cs)

end Behind

/-- A number begins with its sign or a digit. -/
theorem head_of_take {cs : List Char} {result : Numeral × List Char} (h : take cs = some result) :
    ∃ c rest, cs = c :: rest ∧ (c = '-' ∨ isDigit c = true) := by
  cases cs with
  | nil => exact absurd h (by simp [take, takeWhole])
  | cons c rest =>
    refine ⟨c, rest, rfl, ?_⟩
    by_contra hnot
    obtain ⟨hminus, hdigit⟩ := not_or.mp hnot
    have hzero : c ≠ '0' := by
      rintro rfl
      exact hdigit rfl
    have hwhole : takeWhole (c :: rest) = none := by
      rw [takeWhole, List.takeWhile_cons_of_neg hdigit]
      · rfl
      · simp [hzero]
    simp [take, hminus, hwhole] at h

end Numeral

theorem Numeral.take_of_ofText? {literal : String} {n : Numeral} (h : ofText? literal = some n) :
    take literal.toList = some (n, []) := by
  unfold ofText? at h
  split at h
  · rename_i n' htake
    rw [htake, Option.some.inj h]
  · exact absurd h (by simp)

/-- **A number is one token** before what it cannot go on with. -/
theorem takeToken_number {literal : String} {n : Numeral} (h : Numeral.ofText? literal = some n)
    {rest : List Char} (hrest : ∀ c ∈ rest.head?, Numeral.goesOn c = false) :
    takeToken (literal.toList ++ rest) = some (.number literal, rest) := by
  have htake := Numeral.take_of_ofText? h
  have hbehind : Numeral.take (literal.toList ++ rest) = some (n, rest) := by
    cases rest with
    | nil => rw [List.append_nil, htake]
    | cons d ds => rw [Numeral.take_append (hrest d rfl), htake]; rfl
  have hcut : (literal.toList ++ rest).take ((literal.toList ++ rest).length - rest.length) =
    literal.toList := by
    rw [List.length_append, Nat.add_sub_cancel, List.take_left]
  obtain ⟨c, cs, hcs, hhead⟩ := Numeral.head_of_take htake
  have hnumber : takeToken (literal.toList ++ rest) =
    (Numeral.take (literal.toList ++ rest)).map fun r =>
      (.number (String.ofList
        ((literal.toList ++ rest).take ((literal.toList ++ rest).length - r.2.length))), r.2) := by
    rw [hcs, List.cons_append]
    unfold takeToken
    split
    case h_11 => rfl
    -- No other token begins with a sign or a digit.
    all_goals
      rename_i hother
      obtain ⟨rfl, -⟩ := List.cons.inj hother
      exact absurd hhead (by decide)
  rw [hnumber, hbehind, Option.map_some]
  simp only [hcut, String.ofList_toList]

end AltRender.Json

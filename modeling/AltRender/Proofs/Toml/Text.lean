import AltRender.Proofs.Directive.Written
import AltRender.Toml.Text

/-!
# `Proofs/Toml/Text` — texts read back

A text is written in the plainest of five forms that can hold it. Whichever that is, it is read as
the text, and reading stops behind its last quote (`takeText_writeText`). In the forms with escapes
each character is read from what was written for it. In the forms for several lines the quotes need
care: as many as two stand as they are, also right before the closing ones, so that up to five may
come in a row, and only those at the end may be read as closing.

Which form is plainest depends on the text: on whether it has quotes of one kind or the other,
control characters or line breaks, and how many quotes come in a row. The choice is not looked at
more than necessary. What a form needs of the text to be read back is stated for each of the five,
and that the chosen form has it follows from the test by which it was chosen (`Form.of_literal`,
`Form.of_literalLines`).
-/

set_option autoImplicit false

namespace AltRender.Toml

open AltRender.Text

/-! ## Characters -/

/-- The letters that characters are written with behind a backslash. -/
def letters : List Char := ['b', 't', 'n', 'f', 'r', '\\']

/-- **The four ways to write a character:** a backslash and a letter, a backslash and its number, a
line break in a form with lines, and the character itself. -/
theorem escapedChar_cases (lines : Bool) (c : Char) :
    (∃ letter ∈ letters, escapeMeaning? letter = some c ∧ escapedChar lines c = ['\\', letter]) ∨
      (∃ digits, hexChar? ['0', '0', hexDigit true (digits / 16), hexDigit true (digits % 16)] =
        some c ∧
        escapedChar lines c =
          ['\\', 'u', '0', '0', hexDigit true (digits / 16), hexDigit true (digits % 16)]) ∨
      (lines = true ∧ c = '\n' ∧ escapedChar lines c = ['\n']) ∨
      (isControl c = false ∧ c ≠ '\n' ∧ c ≠ '\\' ∧ escapedChar lines c = [c]) := by
  -- The characters that are escaped are ASCII, and those are few enough to be tried one by one.
  by_cases hascii : c.toNat < 128
  · have hall := Directive.of_ascii (P := fun c => ∀ lines : Bool,
      (letters.any fun letter =>
        escapeMeaning? letter == some c && escapedChar lines c == ['\\', letter]) = true ∨
        (hexChar? ['0', '0', hexDigit true ((UInt8.ofNat c.toNat).toNat / 16),
            hexDigit true ((UInt8.ofNat c.toNat).toNat % 16)] = some c ∧
          escapedChar lines c =
            ['\\', 'u', '0', '0', hexDigit true ((UInt8.ofNat c.toNat).toNat / 16),
            hexDigit true ((UInt8.ofNat c.toNat).toNat % 16)]) ∨
        (lines = true ∧ c = '\n' ∧ escapedChar lines c = ['\n']) ∨
        (isControl c = false ∧ c ≠ '\n' ∧ c ≠ '\\' ∧
          escapedChar lines c = [c])) (by decide +kernel) hascii lines
    rcases hall with hletter | hnumber | hrest
    · simp only [List.any_eq_true, Bool.and_eq_true, beq_iff_eq] at hletter
      exact .inl hletter
    · exact .inr (.inl ⟨_, hnumber⟩)
    · exact .inr (.inr hrest)
  · have hne : ∀ d : Char, d.toNat < 128 → c ≠ d := by
      rintro d hd rfl
      exact hascii hd
    have hcontrol : isControl c = false := by
      have hsmall : ¬ c.toNat < 32 := by omega
      have hdelete : c.toNat ≠ 127 := by omega
      simp [isControl, hsmall, hdelete]
    refine .inr (.inr (.inr ⟨hcontrol, hne '\n' (by decide), hne '\\' (by decide), ?_⟩))
    rw [escapedChar, if_neg (by omega), if_neg (hne '\t' (by decide)),
      if_neg (hne '\n' (by decide)), if_neg (by omega), if_neg (hne '\r' (by decide)),
      if_neg (hne '\\' (by decide)), hcontrol, if_neg Bool.false_ne_true]

theorem ne_u_of_mem_letters {letter : Char} (h : letter ∈ letters) :
    letter ≠ 'u' ∧ letter ≠ 'U' := by
  have hall : letters.all (fun letter => letter != 'u' && letter != 'U') = true := by decide
  simpa using List.all_eq_true.mp hall letter h

/-! ## One line -/

/-- A backslash and a letter stand for the character of the letter. -/
theorem takeBasic_letter {letter c : Char} (hletter : letter ≠ 'u' ∧ letter ≠ 'U')
    (h : escapeMeaning? letter = some c) (rest : List Char) :
    takeBasic ('\\' :: letter :: rest) = withChar (some c) (takeBasic rest) := by
  rw [takeBasic, h]
  · simp [hletter.1]
  · simp [hletter.2]

theorem takeBasic_plain {c : Char} (hcontrol : isControl c = false) (hquote : c ≠ '"')
    (hbackslash : c ≠ '\\') (rest : List Char) :
    takeBasic (c :: rest) = withChar (some c) (takeBasic rest) := by
  rw [takeBasic, hcontrol, Bool.false_or, if_neg (by simpa using hbackslash)]
  all_goals simp [hquote, hbackslash]

theorem takeBasic_escapedChar {c : Char} (hquote : c ≠ '"') (rest : List Char) :
    takeBasic (escapedChar false c ++ rest) = withChar (some c) (takeBasic rest) := by
  rcases escapedChar_cases false c with
    ⟨letter, hletter, hmeaning, h⟩ | ⟨digits, hnumber, h⟩ | ⟨hlines, -⟩ |
    ⟨hcontrol, -, hbackslash, h⟩
  · rw [h]
    exact takeBasic_letter (ne_u_of_mem_letters hletter) hmeaning rest
  · rw [h]
    show takeBasic ('\\' :: 'u' :: '0' :: '0' :: _ :: _ :: rest) = _
    rw [takeBasic, hnumber]
  · exact absurd hlines Bool.false_ne_true
  · rw [h]
    exact takeBasic_plain hcontrol hquote hbackslash rest

/-- **A text with escapes on one line is read up to its closing quote.** -/
theorem takeBasic_escapedText (text : List Char) (run : Nat) (rest : List Char) :
    takeBasic (escapedText false 0 run text ++ '"' :: rest) = some (text, rest) := by
  induction text generalizing run with
  | nil => rfl
  | cons c text ih =>
    rw [escapedText]
    by_cases hquote : c = '"'
    · subst hquote
      rw [if_pos rfl, if_neg (Nat.not_lt_zero run), List.cons_append, List.cons_append,
        takeBasic_letter (by decide) rfl, ih]
      rfl
    · rw [if_neg hquote, List.append_assoc, takeBasic_escapedChar hquote, ih]
      rfl

/-- **A text without escapes on one line is read up to its closing quote,** if it has no such quote
and no control character. -/
theorem takeLiteral_append {text : List Char} (hquote : '\'' ∉ text)
    (hcontrol : ∀ c ∈ text, isControl c = false) (rest : List Char) :
    takeLiteral (text ++ '\'' :: rest) = some (text, rest) := by
  induction text with
  | nil => rfl
  | cons c text ih =>
    obtain ⟨hc, hquote⟩ := not_or.mp (mt List.mem_cons.mpr hquote)
    rw [List.cons_append, takeLiteral, hcontrol c List.mem_cons_self, if_neg Bool.false_ne_true,
      ih hquote fun d hd => hcontrol d (List.mem_cons_of_mem c hd)]
    · rfl
    · exact fun h => hc h.symm

/-! ## Several lines -/

theorem endsLine_letter {letter : Char} (hletter : letter ∈ letters) (rest : List Char) :
    endsLine (letter :: rest) = false := by
  simp only [letters, List.mem_cons, List.not_mem_nil, or_false] at hletter
  rcases hletter with rfl | rfl | rfl | rfl | rfl | rfl <;> rfl

theorem takeBasicLines_letter {letter c : Char} (hletter : letter ∈ letters)
    (h : escapeMeaning? letter = some c) (rest : List Char) :
    takeBasicLines false ('\\' :: letter :: rest) =
      withChar (some c) (takeBasicLines false rest) := by
  obtain ⟨hu, hU⟩ := ne_u_of_mem_letters hletter
  rw [takeBasicLines, endsLine_letter hletter, if_neg Bool.false_ne_true, h]
  · simp [hu]
  · simp [hU]

theorem takeBasicLines_plain {c : Char} (hcontrol : isControl c = false) (hquote : c ≠ '"')
    (hbreak : c ≠ '\n') (hbackslash : c ≠ '\\') (rest : List Char) :
    takeBasicLines false (c :: rest) = withChar (some c) (takeBasicLines false rest) := by
  have hreturn : c ≠ '\r' := by
    rintro rfl
    exact absurd hcontrol (by decide)
  rw [takeBasicLines, hcontrol, Bool.false_and, if_neg Bool.false_ne_true, Bool.false_or,
    if_neg (by simpa using hbackslash)]
  all_goals simp [hquote, hbreak, hbackslash, hreturn]

/-- A quote that at most one other follows is no closing one. -/
theorem takeBasicLines_quote {rest : List Char} (h : ∀ more, rest ≠ '"' :: '"' :: more) :
    takeBasicLines false ('"' :: rest) = withChar (some '"') (takeBasicLines false rest) := by
  rw [takeBasicLines]
  · rfl
  all_goals simp_all

theorem takeBasicLines_escapedChar {c : Char} (hquote : c ≠ '"') (rest : List Char) :
    takeBasicLines false (escapedChar true c ++ rest) =
      withChar (some c) (takeBasicLines false rest) := by
  rcases escapedChar_cases true c with
    ⟨letter, hletter, hmeaning, h⟩ | ⟨digits, hnumber, h⟩ | ⟨-, rfl, h⟩ |
    ⟨hcontrol, hbreak, hbackslash, h⟩
  · rw [h]
    exact takeBasicLines_letter hletter hmeaning rest
  · rw [h]
    show takeBasicLines false ('\\' :: 'u' :: '0' :: '0' :: _ :: _ :: rest) = _
    rw [takeBasicLines, hnumber]
  · rw [h]
    rfl
  · rw [h]
    exact takeBasicLines_plain hcontrol hquote hbreak hbackslash rest

/-- What is written for a text begins with a quote only if the text does, and not too many stand
before it. -/
theorem head_escapedText (lines : Bool) {free run : Nat} {c : Char} (h : c ≠ '"' ∨ free ≤ run)
    (text : List Char) : ∃ d ds, escapedText lines free run (c :: text) = d :: ds ∧ d ≠ '"' := by
  rw [escapedText]
  by_cases hquote : c = '"'
  · rw [if_pos hquote, if_neg (Nat.not_lt.mpr (h.resolve_left (not_not_intro hquote)))]
    exact ⟨_, _, rfl, by decide⟩
  · rw [if_neg hquote]
    rcases escapedChar_cases lines c with
      ⟨letter, -, -, hwritten⟩ | ⟨digits, -, hwritten⟩ | ⟨-, -, hwritten⟩ |
      ⟨-, -, -, hwritten⟩
    · exact ⟨_, _, by rw [hwritten]; rfl, by decide⟩
    · exact ⟨_, _, by rw [hwritten]; rfl, by decide⟩
    · exact ⟨_, _, by rw [hwritten]; rfl, by decide⟩
    · exact ⟨_, _, by rw [hwritten]; rfl, hquote⟩

/-- **A text with escapes on several lines is read up to its closing quotes,** if no further quote
follows them. -/
theorem takeBasicLines_escapedText (text : List Char) {run : Nat} (hrun : run ≤ 2)
    {rest : List Char} (hrest : rest.head? ≠ some '"') :
    takeBasicLines false (escapedText true 2 run text ++ '"' :: '"' :: '"' :: rest) =
      some (text, rest) := by
  have hmore : ∀ more, rest ≠ '"' :: more := by
    rintro more rfl
    exact hrest rfl
  induction text generalizing run with
  | nil =>
    show takeBasicLines false ('"' :: '"' :: '"' :: rest) = _
    rw [takeBasicLines]
    all_goals simp [hmore]
  | cons c text ih =>
    by_cases hquote : c = '"'
    · subst hquote
      rw [escapedText, if_pos rfl]
      by_cases hfree : run < 2
      · rw [if_pos hfree, List.cons_append]
        -- The quote is one of the closing ones only if nothing but quotes follows.
        cases text with
        | nil =>
          show takeBasicLines false ('"' :: '"' :: '"' :: '"' :: rest) = _
          rw [takeBasicLines]
          all_goals simp [hmore]
        | cons c' text =>
          by_cases hnext : c' ≠ '"' ∨ 2 ≤ run + 1
          · obtain ⟨d, ds, hwritten, hd⟩ := head_escapedText true hnext text
            rw [takeBasicLines_quote, ih hfree]
            · rfl
            · rw [hwritten]
              simp [hd]
          · obtain ⟨hsecond, hone⟩ := not_or.mp hnext
            obtain rfl := not_not.mp hsecond
            obtain rfl : run = 0 := by omega
            cases text with
            | nil => rfl
            | cons c' text =>
              obtain ⟨d, ds, hwritten, hd⟩ := @head_escapedText true 2 2 c' (.inr le_rfl) text
              rw [takeBasicLines_quote, ih hfree]
              · rfl
              · rw [escapedText, if_pos rfl, if_pos (by decide), hwritten]
                simp [hd]
      · have hends (rest : List Char) : endsLine ('"' :: rest) = false := rfl
        rw [if_neg hfree, List.cons_append, List.cons_append, takeBasicLines, hends,
          if_neg Bool.false_ne_true, ih (by decide)]
        · rfl
        all_goals simp
    · rw [escapedText, if_neg hquote, List.append_assoc, takeBasicLines_escapedChar hquote,
        ih (by decide)]
      rfl

theorem le_longestRun (q : Char) (run : Nat) (text : List Char) : run ≤ longestRun q run text := by
  induction text generalizing run with
  | nil => exact le_rfl
  | cons c text ih =>
    rw [longestRun]
    split
    · exact (Nat.le_succ run).trans (ih (run + 1))
    · exact Nat.le_max_left ..

theorem takeLiteralLines_plain {c : Char} (hcontrol : isControl c = false) {rest : List Char}
    (h : ∀ more, c :: rest ≠ '\'' :: '\'' :: '\'' :: more) :
    takeLiteralLines (c :: rest) = withChar (some c) (takeLiteralLines rest) := by
  by_cases hbreak : c = '\n'
  · subst hbreak
    exact absurd hcontrol (by decide)
  · have hreturn : c ≠ '\r' := by
      rintro rfl
      exact absurd hcontrol (by decide)
    rw [takeLiteralLines, hcontrol, if_neg Bool.false_ne_true]
    all_goals simp_all

/-- **A text without escapes on several lines is read up to its closing quotes,** if it has no three
such quotes in a row and no control character but tabs and line breaks, and no further quote
follows. -/
theorem takeLiteralLines_append {text : List Char} {run : Nat} (hrun : longestRun '\'' run text ≤ 2)
    (hcontrol : ∀ c ∈ text, needsEscape c = false) {rest : List Char}
    (hrest : rest.head? ≠ some '\'') :
    takeLiteralLines (text ++ '\'' :: '\'' :: '\'' :: rest) = some (text, rest) := by
  have hmore : ∀ more, rest ≠ '\'' :: more := by
    rintro more rfl
    exact hrest rfl
  -- The run of quotes counted so far is generalized: it is what keeps three quotes in the text from
  -- closing the string.
  induction text generalizing run with
  | nil =>
    show takeLiteralLines ('\'' :: '\'' :: '\'' :: rest) = _
    rw [takeLiteralLines]
    all_goals simp [hmore]
  | cons c text ih =>
    obtain ⟨hc, hothers⟩ := List.forall_mem_cons.mp hcontrol
    rw [longestRun] at hrun
    by_cases hquote : c = '\''
    · subst hquote
      rw [if_pos rfl] at hrun
      have hnext := ih hrun hothers
      rcases text with _ | ⟨c', _ | ⟨c'', text⟩⟩
      · show takeLiteralLines ('\'' :: '\'' :: '\'' :: '\'' :: rest) = _
        rw [takeLiteralLines]
        all_goals simp [hmore]
      · by_cases hsecond : c' = '\''
        · subst hsecond
          rfl
        · rw [List.cons_append, takeLiteralLines_plain (by decide), hnext]
          · rfl
          · simp [hsecond]
      · rw [List.cons_append, takeLiteralLines_plain (by decide), hnext]
        · rfl
        · -- A third quote would make the run too long.
          intro more hthree
          simp only [List.cons_append, List.cons.injEq, true_and] at hthree
          obtain ⟨rfl, rfl, -⟩ := hthree
          rw [longestRun, if_pos rfl, longestRun, if_pos rfl] at hrun
          have hlong := (le_longestRun '\'' (run + 1 + 1 + 1) text).trans hrun
          omega
    · rw [if_neg hquote] at hrun
      have hnext := ih ((Nat.le_max_right ..).trans hrun) hothers
      by_cases hbreak : c = '\n'
      · subst hbreak
        rw [List.cons_append, takeLiteralLines, hnext]
        rfl
      · have hplain : isControl c = false := by simpa [needsEscape, hbreak] using hc
        rw [List.cons_append, takeLiteralLines_plain hplain, hnext]
        · rfl
        · simp [hquote]

/-! ## All forms -/

theorem not_mem_of_longestRun {q : Char} {text : List Char} (h : longestRun q 0 text = 0) :
    q ∉ text := by
  induction text with
  | nil => exact List.not_mem_nil
  | cons c text ih =>
    rw [longestRun] at h
    split at h
    · exact absurd ((le_longestRun q 1 text).trans h.le) (by decide)
    · rename_i hc
      have hrest : longestRun q 0 text = 0 := Nat.le_zero.mp ((Nat.le_max_right ..).trans h.le)
      exact fun hmem => (List.mem_cons.mp hmem).elim (fun heq => hc heq.symm) (ih hrest)

/-- What the form without escapes is chosen for, on one line and on several. -/
theorem Form.of_literal {text : List Char} (h : Form.of text = .literal) :
    '\'' ∉ text ∧ ∀ c ∈ text, isControl c = false := by
  simp only [Form.of] at h
  split_ifs at h with hbasic hliteral
  simp only [Bool.and_eq_true, Bool.not_eq_true', List.any_eq_false, decide_eq_true_eq,
    Bool.not_eq_true, List.contains_eq_mem, decide_eq_false_iff_not] at hliteral
  obtain ⟨⟨hescapes, hsingle⟩, hlines⟩ := hliteral
  refine ⟨not_mem_of_longestRun hsingle, fun c hc => ?_⟩
  have hbreak : c ≠ '\n' := by
    rintro rfl
    exact hlines hc
  simpa [needsEscape, hbreak] using hescapes c hc

theorem Form.of_literalLines {text : List Char} (h : Form.of text = .literalLines) :
    longestRun '\'' 0 text ≤ 2 ∧ ∀ c ∈ text, needsEscape c = false := by
  simp only [Form.of] at h
  split_ifs at h with hbasic hliteral hbasicLines hliteralLines
  simp only [Bool.and_eq_true, Bool.not_eq_true', List.any_eq_false, decide_eq_true_eq,
    Bool.not_eq_true] at hliteralLines
  exact ⟨hliteralLines.2, hliteralLines.1⟩

/-- Behind opening quotes only a line break does not count, and what begins otherwise counts from
its start. -/
theorem dropFirstBreak_cons {c : Char} (h : isControl c = false) (cs : List Char) :
    dropFirstBreak (c :: cs) = c :: cs := by
  have hbreak : c ≠ '\n' := by
    rintro rfl
    exact absurd h (by decide)
  have hreturn : c ≠ '\r' := by
    rintro rfl
    exact absurd h (by decide)
  simp [dropFirstBreak, dropBreak?, hbreak, hreturn]

theorem dropFirstBreak_escapedText {text : List Char} (h : '\n' ∉ text) (rest : List Char) :
    dropFirstBreak (escapedText true 2 0 text ++ '"' :: rest) =
      escapedText true 2 0 text ++ '"' :: rest := by
  cases text with
  | nil => exact dropFirstBreak_cons (by decide) rest
  | cons c text =>
    rw [escapedText]
    by_cases hquote : c = '"'
    · rw [if_pos hquote, if_pos (by decide)]
      exact dropFirstBreak_cons (by decide) _
    · rw [if_neg hquote]
      rcases escapedChar_cases true c with
        ⟨letter, -, -, hwritten⟩ | ⟨digits, -, hwritten⟩ | ⟨-, rfl, -⟩ |
        ⟨hcontrol, -, -, hwritten⟩
      · rw [hwritten]
        exact dropFirstBreak_cons (by decide) _
      · rw [hwritten]
        exact dropFirstBreak_cons (by decide) _
      · exact absurd List.mem_cons_self h
      · rw [hwritten]
        exact dropFirstBreak_cons hcontrol _

theorem dropFirstBreak_append {text : List Char} (hcontrol : ∀ c ∈ text, needsEscape c = false)
    (h : '\n' ∉ text) (rest : List Char) :
    dropFirstBreak (text ++ '\'' :: rest) = text ++ '\'' :: rest := by
  cases text with
  | nil => exact dropFirstBreak_cons (by decide) rest
  | cons c text =>
    have hbreak : c ≠ '\n' := by
      rintro rfl
      exact h List.mem_cons_self
    exact dropFirstBreak_cons (by simpa [needsEscape, hbreak] using hcontrol c List.mem_cons_self) _

/-- **A text written is read back,** if no quote follows it. -/
theorem takeText_writeText (text : List Char) {rest : List Char} (hdouble : rest.head? ≠ some '"')
    (hsingle : rest.head? ≠ some '\'') : takeText (writeText text ++ rest) = some (text, rest) := by
  simp only [writeText, List.append_assoc]
  cases hform : Form.of text with
  | basic =>
    have hread := takeBasic_escapedText text 0 rest
    show takeText ('"' :: (escapedText false 0 0 text ++ '"' :: rest)) = _
    -- Three quotes in a row would open another form.
    rw [takeText, hread]
    intro more hmore
    cases text with
    | nil =>
      simp only [escapedText, List.nil_append, List.cons.injEq, true_and] at hmore
      rw [hmore] at hdouble
      exact hdouble rfl
    | cons c text =>
      obtain ⟨d, ds, hwritten, hd⟩ := @head_escapedText false 0 0 c (.inr le_rfl) text
      rw [hwritten] at hmore
      exact hd (List.cons.inj hmore).1
  | literal =>
    obtain ⟨hquote, hcontrol⟩ := Form.of_literal hform
    have hread := takeLiteral_append hquote hcontrol rest
    show takeText ('\'' :: (text ++ '\'' :: rest)) = _
    rw [takeText, hread]
    intro more hmore
    cases text with
    | nil =>
      simp only [List.nil_append, List.cons.injEq, true_and] at hmore
      rw [hmore] at hsingle
      exact hsingle rfl
    | cons c text =>
      exact hquote ((List.cons.inj hmore).1 ▸ List.mem_cons_self)
  | basicLines =>
    have hread := @takeBasicLines_escapedText text 0 (by decide) rest hdouble
    by_cases hlines : '\n' ∈ text
    · simpa [Form.hasLines, Form.quotes, body, hlines, takeText, dropFirstBreak, dropBreak?]
        using hread
    · have hdrop := dropFirstBreak_escapedText hlines ('"' :: '"' :: rest)
      simpa [Form.hasLines, Form.quotes, body, hlines, takeText, hdrop] using hread
  | literalLines =>
    obtain ⟨hrun, hcontrol⟩ := Form.of_literalLines hform
    have hread := takeLiteralLines_append hrun hcontrol hsingle
    by_cases hlines : '\n' ∈ text
    · simpa [Form.hasLines, Form.quotes, body, hlines, takeText, dropFirstBreak, dropBreak?]
        using hread
    · have hdrop := dropFirstBreak_append hcontrol hlines ('\'' :: '\'' :: rest)
      simpa [Form.hasLines, Form.quotes, body, hlines, takeText, hdrop] using hread

end AltRender.Toml

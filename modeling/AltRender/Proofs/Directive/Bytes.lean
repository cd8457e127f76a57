import AltRender.Directive.Bytes
import AltRender.Proofs.Directive.Written
import AltRender.Proofs.Text.Bytes

/-!
# `Proofs/Directive/Bytes` — reading by bytes makes no slip

The reader by bytes stands now and then inside a character: behind a backslash in quotes it passes
over one byte, whatever follows. But a byte that goes on with a character is none of the marks, so
it is passed over as well (`skip_trail`), and wherever the reader cuts the text or asks what stands
before, it stands between two characters again. So the search for a closing parenthesis and the cut
at a delimiter do on the bytes what they do on the characters, and make no slip (`closing_utf8`,
`pieces_utf8`).

A *slip* is what would be a panic: a cut in the middle of a character, or an offset behind the end.
The readers here are written so that every such cut is a result of its own, so that the absence of
slips can be stated. It is not true of all bytes; it is true of the bytes of a text, with the
scanners started behind a character.
-/

set_option autoImplicit false

namespace AltRender.Directive.Bytes

open AltRender.Text

/-- A computation goes on with what its first step gives. -/
theorem bind_of_ok {ε α β : Type} {x : Except ε α} {a : α} (h : x = .ok a) (f : α → Except ε β) :
    x >>= f = f a := by
  rw [h]
  rfl

/-! ## Single bytes -/

theorem lt_of_byteAt {bytes : List UInt8} {i : Nat} {b : UInt8} (h : byteAt bytes i = .ok b) :
    i < bytes.length := by
  unfold byteAt at h
  split at h
  · rename_i hb
    exact (List.getElem?_eq_some_iff.mp hb).1
  · exact absurd h (by simp)

/-- **A reader that passes over the bytes that go on with a character** comes from behind its first
byte to its end. -/
theorem skip_trail {α : Type} {f : Nat → α} (xs : List Char) (c : Char) (ys : List Char)
    (hf : ∀ i b, byteAt (utf8 (xs ++ c :: ys)) i = .ok b → isContinuation b = true →
      f i = f (i + 1)) : f (byteLength xs + 1) = f (byteLength (xs ++ [c])) := by
  -- By the continuation bytes still ahead, the ones already passed kept in front.
  have hsteps : ∀ front back : List UInt8, trail c = front ++ back →
      f (byteLength xs + 1 + front.length) = f (byteLength (xs ++ [c])) := by
    intro front back
    induction back generalizing front with
    | nil =>
      intro h
      have hlength := length_trail c
      rw [h, List.append_nil] at hlength
      rw [byteLength_append, byteLength_cons, byteLength_nil]
      congr 1
      omega
    | cons b back ih =>
      intro h
      have hbytes : utf8 (xs ++ c :: ys) =
        (utf8 xs ++ leadByte c :: front) ++ b :: (back ++ utf8 ys) := by
        rw [utf8_append, utf8_cons, h]
        simp
      have hlength : (utf8 xs ++ leadByte c :: front).length =
        byteLength xs + 1 + front.length := by
        rw [List.length_append, length_utf8, List.length_cons]
        omega
      have hbyte : byteAt (utf8 (xs ++ c :: ys)) (byteLength xs + 1 + front.length) = .ok b := by
        rw [hbytes, ← hlength]
        exact byteAt_append _ _ _
      have hmem : b ∈ trail c := by
        rw [h]
        simp
      rw [hf _ b hbyte (isContinuation_of_mem_trail hmem)]
      have := ih (front ++ [b]) (by rw [h, List.append_assoc, List.singleton_append])
      rwa [List.length_append, List.length_singleton, ← Nat.add_assoc] at this
  exact hsteps [] (trail c) rfl

/-- Behind a backslash such a reader passes over one byte and comes to the end of a character all
the same. -/
theorem skip_escaped {α : Type} {f : Nat → α} (xs : List Char) (c : Char) (ys : List Char)
    (hf : ∀ i b, byteAt (utf8 (xs ++ '\\' :: c :: ys)) i = .ok b → isContinuation b = true →
      f i = f (i + 1)) : f (byteLength xs + 2) = f (byteLength (xs ++ ['\\', c])) := by
  have hskip : byteLength xs + 2 = byteLength (xs ++ ['\\']) + 1 := by
    simp [show '\\'.utf8Size = 1 from rfl]
  have htrail := skip_trail (xs ++ ['\\']) c ys (by rwa [List.append_assoc, List.singleton_append])
  rwa [List.append_assoc, List.singleton_append, ← hskip] at htrail

/-! ## Quoting -/

/-- The state in which the reader by characters is between two of them. -/
def stateOf (quoted : Bool) : Quoting :=
  if quoted then .inside else .outside

theorem stateOf_eq_outside {quoted : Bool} : stateOf quoted = .outside ↔ quoted = false := by
  cases quoted <;> simp [stateOf]

theorem stateOf_quote (quoted : Bool) : (stateOf quoted).step '"' = stateOf (!quoted) := by
  cases quoted <;> rfl

theorem stateOf_plain {quoted : Bool} {c : Char} (hquote : c ≠ '"')
    (hescape : ¬ (c = '\\' ∧ quoted = true)) : (stateOf quoted).step c = stateOf quoted := by
  cases quoted with
  | false => exact Quoting.step_outside hquote
  | true => exact Quoting.step_inside (not_or.mpr ⟨hquote, fun hc => hescape ⟨hc, rfl⟩⟩)

/-! ## The closing parenthesis -/

/-- Where a list that is read from an offset on is closed. -/
def closedAt (offset : Nat) (outcome : Except Problem Closed) : Except Problem Nat :=
  outcome.map fun closed => offset + byteLength closed.inside

/-- A character that is no parenthesis outside quotes does not end the search. -/
theorem closedAt_cons {list quote : Nat} {state : Quoting} {xs ys : List Char} {c : Char}
    (hplain : state = .outside → c ≠ ')' ∧ c ≠ '(') :
    closedAt (byteLength xs) (Directive.closingFrom list state quote (byteLength xs) (c :: ys)) =
      closedAt (byteLength (xs ++ [c])) (Directive.closingFrom list (state.step c)
        (if state = .outside ∧
          c = '"' then byteLength xs else quote) (byteLength (xs ++ [c])) ys) := by
  have hoffset : byteLength (xs ++ [c]) = byteLength xs + c.utf8Size := by simp
  rw [Directive.closingFrom, if_neg fun h => (hplain h.1).1 h.2, if_neg fun h => (hplain h.1).2 h.2,
    hoffset]
  simp only
  cases Directive.closingFrom list (state.step c) (if state = .outside ∧
    c = '"' then byteLength xs else quote)
      (byteLength xs + c.utf8Size) ys with
  | error problem => rfl
  | ok closed => simp only [closedAt, Except.map, byteLength_cons, Nat.add_assoc]

section Closing

variable {bytes : List UInt8} {start : Nat} {quoted : Bool} {quote i : Nat}

theorem closingFrom_of_byteAt {b : UInt8} (h : byteAt bytes i = .ok b) :
    closingFrom bytes start quoted quote i =
      if b = '\\'.toUInt8 ∧ quoted = true then closingFrom bytes start quoted quote (i + 2)
      else if b = '"'.toUInt8 then closingFrom bytes start (!quoted) i (i + 1)
      else if b = ')'.toUInt8 ∧ quoted = false then .ok (.ok i)
      else if b = '('.toUInt8 ∧ quoted = false then .ok (.error (.unbalanced i))
      else closingFrom bytes start quoted quote (i + 1) := by
  rw [closingFrom, if_pos (lt_of_byteAt h), h]
  rfl

theorem closingFrom_of_isContinuation {b : UInt8} (hbyte : byteAt bytes i = .ok b)
    (hb : isContinuation b = true) :
    closingFrom bytes start quoted quote i = closingFrom bytes start quoted quote (i + 1) := by
  have hne : ∀ mark : Char, mark.toNat < 128 → b ≠ mark.toUInt8 :=
    fun mark => ne_of_isContinuation hb
  rw [closingFrom_of_byteAt hbyte, if_neg fun h => hne '\\' (by decide) h.1,
    if_neg (hne '"' (by decide)), if_neg fun h => hne ')' (by decide) h.1,
    if_neg fun h => hne '(' (by decide) h.1]

/-- The reader at a character. -/
theorem closingFrom_char {xs ys : List Char} {c : Char} :
    closingFrom (utf8 (xs ++ c :: ys)) start quoted quote (byteLength xs) =
      if c = '\\' ∧
      quoted = true then closingFrom (utf8 (xs ++ c :: ys)) start quoted quote (byteLength xs + 2)
      else if c = '"'
      then closingFrom (utf8 (xs ++ c :: ys)) start (!quoted) (byteLength xs)
        (byteLength (xs ++ [c]))
      else if c = ')' ∧ quoted = false then .ok (.ok (byteLength xs))
      else if c = '(' ∧ quoted = false then .ok (.error (.unbalanced (byteLength xs)))
      else closingFrom (utf8 (xs ++ c :: ys)) start quoted quote (byteLength (xs ++ [c])) := by
  have hnext :
    ∀ quoted quote, closingFrom (utf8 (xs ++ c :: ys)) start quoted quote (byteLength xs + 1) =
      closingFrom (utf8 (xs ++ c :: ys)) start quoted quote (byteLength (xs ++ [c])) :=
    fun quoted quote => skip_trail xs c ys fun _ _ => closingFrom_of_isContinuation
  rw [closingFrom_of_byteAt (byteAt_utf8 xs c ys), hnext, hnext]
  simp only [leadByte_eq_iff (show '\\'.toNat < 128 by decide),
    leadByte_eq_iff (show '"'.toNat < 128 by decide),
    leadByte_eq_iff (show ')'.toNat < 128 by decide),
    leadByte_eq_iff (show '('.toNat < 128 by decide)]

/-- Behind the last byte the list is not closed. -/
theorem closingFrom_of_length_le (hi : bytes.length ≤ i) (hstart : 0 < start) :
    closingFrom bytes start quoted quote i =
      .ok (.error (if quoted = true then .unterminated quote else .unbalanced (start - 1))) := by
  rw [closingFrom, if_neg (Nat.not_lt_of_le hi), oneLess, if_neg (Nat.ne_of_gt hstart)]
  cases quoted <;> rfl

/-- Behind the last character the list is not closed. -/
theorem closingFrom_end (cs : List Char) {i : Nat} (hi : byteLength cs ≤ i) (hstart : 0 < start) :
    closingFrom (utf8 cs) start quoted quote i =
      .ok (.error (if quoted = true then .unterminated quote else .unbalanced (start - 1))) :=
  closingFrom_of_length_le (by rwa [length_utf8]) hstart

end Closing

/-- Whatever the bytes are, the search makes no slip if it starts behind a first byte. -/
theorem exists_closingFrom {bytes : List UInt8} {start : Nat} (hstart : 0 < start) (quoted : Bool)
    (quote i : Nat) : ∃ outcome, closingFrom bytes start quoted quote i = .ok outcome := by
  fun_induction closingFrom bytes start quoted quote i with
  | case1 quoted quote i hi ihSkip ihQuote ihNext =>
    have hbyte : byteAt bytes i = .ok bytes[i] := by rw [byteAt, List.getElem?_eq_getElem hi]
    rw [bind_of_ok hbyte]
    split
    · exact ihSkip
    · split
      · exact ihQuote
      · split
        · exact ⟨_, rfl⟩
        · split
          · exact ⟨_, rfl⟩
          · exact ihNext
  | case2 quote i hi => exact ⟨_, rfl⟩
  | case3 quoted quote i hi hquoted =>
    have hless : oneLess start = .ok (start - 1) := if_neg (Nat.ne_of_gt hstart)
    exact ⟨_, bind_of_ok hless _⟩

/-- **The search by bytes ends where the search by characters ends.** -/
theorem closingFrom_utf8 {start : Nat} (hstart : 0 < start) {quoted : Bool} {last : Nat}
    (quote : Nat) (hlast : quoted = true → last = quote) (xs ys : List Char) :
    closingFrom (utf8 (xs ++ ys)) start quoted last (byteLength xs) =
      .ok (closedAt (byteLength xs)
        (Directive.closingFrom (start - 1) (stateOf quoted) quote (byteLength xs) ys)) := by
  cases ys with
  | nil =>
    rw [closingFrom_end _ (by simp) hstart]
    cases quoted with
    | false => rfl
    | true =>
      rw [hlast rfl]
      rfl
  | cons c ys =>
    rw [closingFrom_char]
    by_cases hescape : c = '\\' ∧ quoted = true
    · obtain ⟨rfl, rfl⟩ := hescape
      have hstays : ∀ d, ¬ (stateOf true = .outside ∧ d = '"') := fun d h => absurd h.1 (by decide)
      rw [if_pos ⟨rfl, rfl⟩, closedAt_cons fun h => absurd h (by decide), if_neg (hstays _)]
      cases ys with
      | nil =>
        rw [closingFrom_end _ (by simp [show '\\'.utf8Size = 1 from rfl]) hstart, hlast rfl]
        rfl
      | cons d ys =>
        have hescaped : ¬ ((stateOf true).step '\\' = .outside ∧ d = '"') :=
          fun h => absurd h.1 (by decide)
        -- The byte behind the backslash may open a long character, whose other bytes the scan
        -- passes over one by one.
        have ih := closingFrom_utf8 hstart _ hlast (xs ++ ['\\', d]) ys
        rw [List.append_assoc] at ih
        rw [skip_escaped xs d ys fun _ _ => closingFrom_of_isContinuation,
          closedAt_cons fun h => absurd h (by decide), if_neg hescaped, List.append_assoc xs]
        exact ih
    · rw [if_neg hescape]
      by_cases hquote : c = '"'
      · subst hquote
        rw [if_pos rfl, closedAt_cons fun _ => by decide, stateOf_quote, List.append_cons xs]
        -- A quote that opens a text is the last one seen, which an unclosed list is blamed on.
        refine closingFrom_utf8 hstart _ (fun hquoted => ?_) _ ys
        rw [if_pos ⟨stateOf_eq_outside.mpr (by simpa using hquoted), rfl⟩]
      · rw [if_neg hquote]
        by_cases hclose : c = ')' ∧ quoted = false
        · obtain ⟨rfl, rfl⟩ := hclose
          rw [if_pos ⟨rfl, rfl⟩]
          rfl
        · rw [if_neg hclose]
          by_cases hopen : c = '(' ∧ quoted = false
          · obtain ⟨rfl, rfl⟩ := hopen
            rw [if_pos ⟨rfl, rfl⟩]
            rfl
          · have hplain : stateOf quoted = .outside → c ≠ ')' ∧ c ≠ '(' := fun hstate =>
              ⟨fun hc => hclose ⟨hc, stateOf_eq_outside.mp hstate⟩,
                fun hc => hopen ⟨hc, stateOf_eq_outside.mp hstate⟩⟩
            rw [if_neg hopen, closedAt_cons hplain, if_neg fun h => hquote h.2,
              stateOf_plain hquote hescape, List.append_cons xs]
            exact closingFrom_utf8 hstart _ hlast _ ys
termination_by ys.length

/-- **The closing parenthesis by bytes.** -/
theorem closing_utf8 (xs ys : List Char) (hstart : 0 < byteLength xs) :
    closing (utf8 (xs ++ ys)) (byteLength xs) =
      .ok (closedAt (byteLength xs) (Directive.closing (byteLength xs - 1) ys)) := by
  have hfirst : byteLength xs - 1 + 1 = byteLength xs := Nat.sub_add_cancel hstart
  rw [closing, closingFrom_utf8 hstart _ (fun _ => rfl), Directive.closing, hfirst]
  rfl

/-! ## Cutting at a delimiter -/

/-- The pieces with a text put before the first of them. -/
def addFront (front : List Char) : List (List Char) → List (List Char)
  | [] => [front]
  | piece :: pieces => (front ++ piece) :: pieces

theorem addFront_nil {ps : List (List Char)} (h : ps ≠ []) : addFront [] ps = ps := by
  cases ps with
  | nil => exact absurd rfl h
  | cons p ps => rfl

theorem addFront_addToFirst (front : List Char) (c : Char) (ps : List (List Char)) :
    addFront front (addToFirst c ps) = addFront (front ++ [c]) ps := by
  cases ps with
  | nil => rfl
  | cons p ps => simp [addToFirst, addFront]

theorem addFront_piecesFrom {delimiter c : Char} {state : Quoting}
    (hplain : ¬ (state = .outside ∧ c = delimiter)) (front cs : List Char) :
    addFront front (Directive.piecesFrom delimiter state (c :: cs)) =
      addFront (front ++ [c]) (Directive.piecesFrom delimiter (state.step c) cs) := by
  rw [Directive.piecesFrom, if_neg hplain, addFront_addToFirst]

section Cut

variable {text : String} {delimiter : Char} {start : Nat} {quoted : Bool} {i : Nat}

theorem piecesFrom_of_byteAt {b : UInt8} (h : byteAt (utf8 text.toList) i = .ok b) :
    piecesFrom text delimiter.toUInt8 start quoted i =
      if b = '\\'.toUInt8 ∧
      quoted = true then piecesFrom text delimiter.toUInt8 start quoted (i + 2)
      else if b = '"'.toUInt8 then piecesFrom text delimiter.toUInt8 start (!quoted) (i + 1)
      else if b = delimiter.toUInt8 ∧ quoted = false then do
        return (← slice text start i) ::
          (← piecesFrom text delimiter.toUInt8 (i + 1) quoted (i + 1))
      else piecesFrom text delimiter.toUInt8 start quoted (i + 1) := by
  rw [piecesFrom, if_pos (lt_of_byteAt h), h]
  rfl

theorem piecesFrom_of_isContinuation (hascii : delimiter.toNat < 128) {b : UInt8}
    (hbyte : byteAt (utf8 text.toList) i = .ok b) (hb : isContinuation b = true) :
    piecesFrom text delimiter.toUInt8 start quoted i =
      piecesFrom text delimiter.toUInt8 start quoted (i + 1) := by
  have hne : ∀ mark : Char, mark.toNat < 128 → b ≠ mark.toUInt8 :=
    fun mark => ne_of_isContinuation hb
  rw [piecesFrom_of_byteAt hbyte, if_neg fun h => hne '\\' (by decide) h.1,
    if_neg (hne '"' (by decide)), if_neg fun h => hne delimiter hascii h.1]

/-- The reader at a character. -/
theorem piecesFrom_char (hascii : delimiter.toNat < 128) {xs ys : List Char} {c : Char}
    (htext : text.toList = xs ++ c :: ys) :
    piecesFrom text delimiter.toUInt8 start quoted (byteLength xs) =
      if c = '\\' ∧
      quoted = true then piecesFrom text delimiter.toUInt8 start quoted (byteLength xs + 2)
      else if c = '"'
      then piecesFrom text delimiter.toUInt8 start (!quoted) (byteLength (xs ++ [c]))
      else if c = delimiter ∧ quoted = false then do
        return (← slice text start (byteLength xs)) ::
          (← piecesFrom text delimiter.toUInt8 (byteLength xs + 1) quoted (byteLength (xs ++ [c])))
      else piecesFrom text delimiter.toUInt8 start quoted (byteLength (xs ++ [c])) := by
  have hbyte : byteAt (utf8 text.toList) (byteLength xs) = .ok (leadByte c) := by
    rw [htext, byteAt_utf8]
  have hnext : ∀ start quoted, piecesFrom text delimiter.toUInt8 start quoted (byteLength xs + 1) =
      piecesFrom text delimiter.toUInt8 start quoted (byteLength (xs ++ [c])) :=
    fun start quoted => skip_trail xs c ys (htext ▸ fun _ _ => piecesFrom_of_isContinuation hascii)
  rw [piecesFrom_of_byteAt hbyte, hnext, hnext, hnext]
  simp only [leadByte_eq_iff (show '\\'.toNat < 128 by decide),
    leadByte_eq_iff (show '"'.toNat < 128 by decide), leadByte_eq_iff hascii]

/-- Behind the last character the last piece is cut out. -/
theorem piecesFrom_end {ws xs : List Char} (htext : text.toList = ws ++ xs) {i : Nat}
    (hi : byteLength (ws ++ xs) ≤ i) :
    piecesFrom text delimiter.toUInt8 (byteLength ws) quoted i = .ok [String.ofList xs] := by
  have hlast : slice text (byteLength ws) (utf8 text.toList).length = .ok (String.ofList xs) := by
    rw [length_utf8, htext]
    exact slice_append (by rw [htext, List.append_nil])
  rw [piecesFrom, if_neg (by rw [length_utf8, htext]; omega), hlast]
  rfl

end Cut

/-- **The cut by bytes is the cut by characters.** `ws` has been cut off, and `xs` is what has been
read of the piece. -/
theorem piecesFrom_utf8 {text : String} {delimiter : Char} (hascii : delimiter.toNat < 128)
    (hdelimiter : delimiter ≠ '"') (quoted : Bool) (ws xs ys : List Char)
    (htext : text.toList = ws ++ xs ++ ys) :
    piecesFrom text delimiter.toUInt8 (byteLength ws) quoted (byteLength (ws ++ xs)) =
      .ok
        ((addFront xs (Directive.piecesFrom delimiter (stateOf quoted) ys)).map String.ofList) := by
  cases ys with
  | nil =>
    rw [piecesFrom_end (by rw [htext, List.append_nil]) (Nat.le_refl _)]
    simp [Directive.piecesFrom, addFront]
  | cons c ys =>
    have hnext : text.toList = ws ++ (xs ++ [c]) ++ ys := by rw [htext]; simp
    have hoffset : byteLength (ws ++ xs ++ [c]) = byteLength (ws ++ (xs ++ [c])) := by
      rw [List.append_assoc]
    rw [piecesFrom_char hascii htext, hoffset]
    -- A backslash inside quotes takes two steps of the scan over bytes, one for each character: the
    -- second one may be any character, and its bytes behind the first are passed over as they
    -- stand.
    by_cases hescape : c = '\\' ∧ quoted = true
    · obtain ⟨rfl, rfl⟩ := hescape
      have hinside : ∀ d, ¬ (stateOf true = .outside ∧ d = delimiter) :=
        fun d h => absurd h.1 (by decide)
      rw [if_pos ⟨rfl, rfl⟩, addFront_piecesFrom (hinside _)]
      cases ys with
      | nil =>
        rw [piecesFrom_end (by rw [hnext, List.append_nil])
          (by simp [show '\\'.utf8Size = 1 from rfl, Nat.add_assoc])]
        simp [Directive.piecesFrom, addFront]
      | cons d ys =>
        have hescaped : ¬ ((stateOf true).step '\\' = .outside ∧ d = delimiter) :=
          fun h => absurd h.1 (by decide)
        have hskip :
          piecesFrom text delimiter.toUInt8 (byteLength ws) true (byteLength (ws ++ xs) + 2) =
            piecesFrom text delimiter.toUInt8 (byteLength ws) true
              (byteLength (ws ++ xs ++ ['\\', d])) :=
          skip_escaped (ws ++ xs) d ys (htext ▸ fun _ _ => piecesFrom_of_isContinuation hascii)
        rw [hskip, addFront_piecesFrom hescaped, List.append_assoc ws, List.append_assoc xs]
        exact piecesFrom_utf8 hascii hdelimiter _ ws _ ys (by rw [hnext]; simp)
    · rw [if_neg hescape]
      by_cases hquote : c = '"'
      · subst hquote
        have hplain : ¬ (stateOf quoted = .outside ∧ '"' = delimiter) :=
          fun h => hdelimiter h.2.symm
        rw [if_pos rfl, addFront_piecesFrom hplain, stateOf_quote]
        exact piecesFrom_utf8 hascii hdelimiter _ ws _ ys hnext
      · rw [if_neg hquote]
        -- Only here does a piece end: the characters read so far are the slice, and what follows is
        -- read with none in hand.
        by_cases hcut : c = delimiter ∧ quoted = false
        · obtain ⟨rfl, rfl⟩ := hcut
          have hpiece : slice text (byteLength ws) (byteLength (ws ++ xs)) =
            .ok (String.ofList xs) := slice_append htext
          have hstart : byteLength (ws ++ xs) + 1 = byteLength (ws ++ (xs ++ [c])) := by
            simp [utf8Size_of_ascii hascii, Nat.add_assoc]
          have hrest :=
            piecesFrom_utf8 hascii hdelimiter false (ws ++ (xs ++ [c])) [] ys (by rw [hnext]; simp)
          rw [List.append_nil, addFront_nil (piecesFrom_ne_nil _ _ _)] at hrest
          rw [if_pos ⟨rfl, rfl⟩, hpiece, hstart, hrest, Directive.piecesFrom, if_pos ⟨rfl, rfl⟩,
            addFront, List.append_nil]
          rfl
        · have hplain : ¬ (stateOf quoted = .outside ∧ c = delimiter) :=
            fun h => hcut ⟨h.2, stateOf_eq_outside.mp h.1⟩
          rw [if_neg hcut, addFront_piecesFrom hplain, stateOf_plain hquote hescape]
          exact piecesFrom_utf8 hascii hdelimiter _ ws _ ys hnext
termination_by ys.length

theorem pieces_utf8 (text : String) {delimiter : Char} (hascii : delimiter.toNat < 128)
    (hdelimiter : delimiter ≠ '"') :
    pieces text delimiter = .ok ((Directive.pieces delimiter text.toList).map String.ofList) := by
  rw [pieces]
  have hpieces := piecesFrom_utf8 hascii hdelimiter false [] [] text.toList rfl
  rwa [addFront_nil (piecesFrom_ne_nil _ _ _)] at hpieces

end AltRender.Directive.Bytes

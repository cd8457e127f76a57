import AltRender.Proofs.Directive.Bytes

/-!
# `Proofs/Directive/Closing` — what the search for a closing parenthesis reports

Of any bytes, whether or not they are a text, the automaton of quoting says which are read outside
quotes (`quotingAt`). The search goes through them with no more than a flag, and passes over a byte
behind a backslash, now and then over the end. What it has learnt is kept from step to step
(`Reached`): the automaton's state, that no parenthesis was passed over that is read outside quotes,
and which quote is open. So it ends in one of four ways, each of which says what the bytes are like
(`Outcome`), and since no two of them fit the same bytes, it ends in the one that does
(`closing_eq_iff`).
-/

set_option autoImplicit false

namespace AltRender.Directive.Bytes

open AltRender.Text

/-! ## Quoting, byte by byte -/

/-- The state after one more byte: a quote opens or closes, and a backslash between quotes takes one
byte with it. -/
def stepByte (state : Quoting) (b : UInt8) : Quoting :=
  match state with
  | .outside => if b = '"'.toUInt8 then .inside else .outside
  | .inside => if b = '\\'.toUInt8 then .escaped else if b = '"'.toUInt8 then .outside else .inside
  | .escaped => .inside

/-- **How the byte at an offset is read,** if reading begins at `start`. -/
def quotingAt (bytes : List UInt8) (start i : Nat) : Quoting :=
  ((bytes.take i).drop start).foldl stepByte .outside

/-- A mark that is read outside quotes. -/
structure BareAt (bytes : List UInt8) (start : Nat) (mark : Char) (o : Nat) : Prop where
  start_le : start ≤ o
  byte : bytes[o]? = some mark.toUInt8
  outside : quotingAt bytes start o = .outside

def ParenthesisAt (bytes : List UInt8) (start o : Nat) : Prop :=
  BareAt bytes start '(' o ∨ BareAt bytes start ')' o

/-- The first parenthesis that is read outside quotes. -/
structure FirstAt (bytes : List UInt8) (start o : Nat) : Prop where
  parenthesis : ParenthesisAt bytes start o
  first : ∀ i < o, ¬ ParenthesisAt bytes start i

/-- The bytes end between quotes, the first of which stands at the offset. -/
structure OpenFrom (bytes : List UInt8) (start o : Nat) : Prop where
  bare : BareAt bytes start '"' o
  stays : ∀ i, o < i → i ≤ bytes.length → quotingAt bytes start i ≠ .outside

section

variable {bytes : List UInt8} {start i o : Nat} {b : UInt8}

theorem quotingAt_start : quotingAt bytes start start = .outside := by
  rw [quotingAt, List.drop_eq_nil_of_le (List.length_take_le _ _), List.foldl_nil]

/-- Behind the last byte nothing changes. -/
theorem quotingAt_of_length_le (h : bytes.length ≤ i) :
    quotingAt bytes start i = quotingAt bytes start bytes.length := by
  rw [quotingAt, quotingAt, List.take_of_length_le h, List.take_length]

theorem quotingAt_succ (hstart : start ≤ i) (hbyte : bytes[i]? = some b) :
    quotingAt bytes start (i + 1) = stepByte (quotingAt bytes start i) b := by
  have hlength : (bytes.take i).length = i := by
    have := (List.getElem?_eq_some_iff.mp hbyte).1
    rw [List.length_take]
    omega
  rw [quotingAt, quotingAt, List.take_add_one, hbyte, Option.toList_some,
    List.drop_append_of_le_length (hlength.symm ▸ hstart), List.foldl_append]
  rfl

theorem BareAt.lt {mark : Char} (h : BareAt bytes start mark o) : o < bytes.length :=
  (List.getElem?_eq_some_iff.mp h.byte).1

theorem BareAt.byte_eq {mark : Char} (h : BareAt bytes start mark o) (hbyte : bytes[o]? = some b) :
    b = mark.toUInt8 :=
  Option.some.inj (hbyte.symm.trans h.byte)

theorem ParenthesisAt.outside (h : ParenthesisAt bytes start o) :
    quotingAt bytes start o = .outside :=
  h.elim BareAt.outside BareAt.outside

theorem ParenthesisAt.lt (h : ParenthesisAt bytes start o) : o < bytes.length :=
  h.elim BareAt.lt BareAt.lt

theorem ParenthesisAt.start_le (h : ParenthesisAt bytes start o) : start ≤ o :=
  h.elim BareAt.start_le BareAt.start_le

/-! ## What is first, and what stays open -/

/-- Only one parenthesis comes first. -/
theorem FirstAt.unique {o' : Nat} (h : FirstAt bytes start o) (h' : FirstAt bytes start o') :
    o = o' := by
  rcases Nat.lt_trichotomy o o' with hlt | heq | hlt
  · exact absurd h.parenthesis (h'.first o hlt)
  · exact heq
  · exact absurd h'.parenthesis (h.first o' hlt)

/-- Only one quote stays open. -/
theorem OpenFrom.unique {o' : Nat} (h : OpenFrom bytes start o) (h' : OpenFrom bytes start o') :
    o = o' := by
  rcases Nat.lt_trichotomy o o' with hlt | heq | hlt
  · exact absurd h'.bare.outside (h.stays o' hlt (Nat.le_of_lt h'.bare.lt))
  · exact heq
  · exact absurd h.bare.outside (h'.stays o hlt (Nat.le_of_lt h.bare.lt))

/-- A quote that stays open is open at the end. -/
theorem OpenFrom.ends (h : OpenFrom bytes start o) :
    quotingAt bytes start bytes.length ≠ .outside :=
  h.stays _ h.bare.lt (Nat.le_refl _)

end

/-! ## The search -/

/-- **What the search has learnt when it comes to an offset:** the state of quoting, that it has
passed over no bare parenthesis, and the quote that is open, if one is. The offset may be one behind
the end, if a backslash is the last byte. -/
structure Reached (bytes : List UInt8) (start : Nat) (quoted : Bool) (quote i : Nat) : Prop where
  start_le : start ≤ i
  outside_iff : quotingAt bytes start i = .outside ↔ quoted = false
  inside : quoted = true → i < bytes.length → quotingAt bytes start i = .inside
  passed : ∀ o < i, ¬ ParenthesisAt bytes start o
  opened : quoted = true → BareAt bytes start '"' quote ∧
    ∀ j, quote < j → j ≤ i → quotingAt bytes start j ≠ .outside

namespace Reached

variable {bytes : List UInt8} {start : Nat} {quoted : Bool} {quote i : Nat} {b : UInt8}

theorem atStart : Reached bytes start false start start where
  start_le := Nat.le_refl _
  outside_iff := iff_of_true quotingAt_start rfl
  inside h := absurd h (by decide)
  passed o ho h := absurd h.start_le (Nat.not_le_of_lt ho)
  opened h := absurd h (by decide)

theorem state (h : Reached bytes start quoted quote i) (hbyte : bytes[i]? = some b) :
    quotingAt bytes start i = stateOf quoted := by
  cases quoted with
  | false => exact h.outside_iff.mpr rfl
  | true => exact h.inside rfl (List.getElem?_eq_some_iff.mp hbyte).1

theorem bareAt {mark : Char} (h : Reached bytes start false quote i)
    (hbyte : bytes[i]? = some mark.toUInt8) : BareAt bytes start mark i :=
  ⟨h.start_le, hbyte, h.outside_iff.mpr rfl⟩

/-- One byte further, which is no bare parenthesis. It opens a quote, or leaves the one open that
is. -/
theorem next {quoted' : Bool} {quote' : Nat} (h : Reached bytes start quoted quote i)
    (hbyte : bytes[i]? = some b) (hparenthesis : ¬ ParenthesisAt bytes start i)
    (hstep : stepByte (stateOf quoted) b = stateOf quoted')
    (hopened : quoted' = true → quoted = true ∧ quote' = quote ∨ BareAt bytes start '"' i ∧
      quote' = i) : Reached bytes start quoted' quote' (i + 1) := by
  have hnext : quotingAt bytes start (i + 1) = stateOf quoted' := by
    rw [quotingAt_succ h.start_le hbyte, h.state hbyte, hstep]
  refine ⟨Nat.le_succ_of_le h.start_le, by rw [hnext, stateOf_eq_outside], ?_, fun o ho => ?_,
    fun hquoted => ?_⟩
  · intro hquoted _
    rw [hnext, hquoted]
    rfl
  · rcases Nat.lt_succ_iff_lt_or_eq.mp ho with ho | rfl
    · exact h.passed o ho
    · exact hparenthesis
  · have hends : quotingAt bytes start (i + 1) ≠ .outside := by
      rw [hnext, Ne, stateOf_eq_outside, hquoted]
      decide
    -- Either the quote was open before and has stayed so, or this byte has opened it.
    rcases hopened hquoted with ⟨hquoted, rfl⟩ | ⟨hbare, rfl⟩
    · obtain ⟨hbare, hstays⟩ := h.opened hquoted
      refine ⟨hbare, fun j hj hle => ?_⟩
      rcases Nat.le_succ_iff.mp hle with hle | rfl
      · exact hstays j hj hle
      · exact hends
    · refine ⟨hbare, fun j hj hle => ?_⟩
      obtain rfl : j = quote' + 1 := Nat.le_antisymm hle hj
      exact hends

/-- A quote opens or closes. -/
theorem toggle (h : Reached bytes start quoted quote i) (hbyte : bytes[i]? = some '"'.toUInt8) :
    Reached bytes start (!quoted) i (i + 1) := by
  refine h.next hbyte (not_or.mpr ⟨fun hbare => ?_, fun hbare => ?_⟩) (by cases quoted <;> rfl)
    fun hquoted => ?_
  · exact absurd (hbare.byte_eq hbyte) (by decide)
  · exact absurd (hbare.byte_eq hbyte) (by decide)
  · obtain rfl : quoted = false := by simpa using hquoted
    exact .inr ⟨h.bareAt hbyte, rfl⟩

/-- Any other byte is passed over. -/
theorem pass (h : Reached bytes start quoted quote i) (hbyte : bytes[i]? = some b)
    (hescape : ¬ (b = '\\'.toUInt8 ∧ quoted = true)) (hquote : b ≠ '"'.toUInt8)
    (hclose : ¬ (b = ')'.toUInt8 ∧ quoted = false)) (hopen : ¬ (b = '('.toUInt8 ∧ quoted = false)) :
    Reached bytes start quoted quote (i + 1) := by
  refine h.next hbyte (not_or.mpr ⟨fun hbare => ?_, fun hbare => ?_⟩) ?_ fun hquoted =>
    .inl ⟨hquoted, rfl⟩
  · exact hopen ⟨hbare.byte_eq hbyte, h.outside_iff.mp hbare.outside⟩
  · exact hclose ⟨hbare.byte_eq hbyte, h.outside_iff.mp hbare.outside⟩
  · cases quoted with
    | false => exact if_neg hquote
    | true => exact (if_neg fun hb => hescape ⟨hb, rfl⟩).trans (if_neg hquote)

/-- Behind a backslash between quotes a byte is passed over, or the end. -/
theorem skip (h : Reached bytes start true quote i) (hbyte : bytes[i]? = some '\\'.toUInt8) :
    Reached bytes start true quote (i + 2) := by
  have hinside : quotingAt bytes start i = .inside := h.state hbyte
  have hescaped : quotingAt bytes start (i + 1) = .escaped := by
    rw [quotingAt_succ h.start_le hbyte, hinside]
    rfl
  -- Where the text ends at the backslash the state stays as it was; any character behind it is
  -- passed over, and the quotes are open as before.
  have hskipped : quotingAt bytes start (i + 2) ≠ .outside ∧
    (i + 2 < bytes.length → quotingAt bytes start (i + 2) = .inside) := by
    cases hnext : bytes[i + 1]? with
    | none =>
      have hend : bytes.length ≤ i + 1 := List.getElem?_eq_none_iff.mp hnext
      have hsame : quotingAt bytes start (i + 2) = .escaped := by
        rw [quotingAt_of_length_le (Nat.le_succ_of_le hend), ← quotingAt_of_length_le hend,
          hescaped]
      exact ⟨by rw [hsame]; decide, fun hlt => absurd hlt (by omega)⟩
    | some b =>
      have hback : quotingAt bytes start (i + 2) = .inside := by
        rw [quotingAt_succ (Nat.le_succ_of_le h.start_le) hnext, hescaped]
        rfl
      exact ⟨by rw [hback]; decide, fun _ => hback⟩
  obtain ⟨hbare, hstays⟩ := h.opened rfl
  have hquoted : ∀ j, i ≤ j → j ≤ i + 2 → quotingAt bytes start j ≠ .outside := by
    intro j hle hge
    obtain rfl | rfl | rfl : j = i ∨ j = i + 1 ∨ j = i + 2 := by omega
    · rw [hinside]
      decide
    · rw [hescaped]
      decide
    · exact hskipped.1
  refine ⟨Nat.le_add_right_of_le h.start_le, iff_of_false hskipped.1 (by decide),
    fun _ => hskipped.2, fun o ho => ?_,
    fun _ => ⟨hbare, fun j hj hle => ?_⟩⟩
  · by_cases hlt : o < i
    · exact h.passed o hlt
    · exact fun hparenthesis => hquoted o (by omega) (by omega) hparenthesis.outside
  · by_cases hle' : j ≤ i
    · exact hstays j hj hle'
    · exact hquoted j (by omega) hle

end Reached

/-- **The ways in which the search can end,** and what the bytes are like in each. -/
inductive Outcome (bytes : List UInt8) (start : Nat) : Except Problem Nat → Prop where
  | closed {o : Nat} (first : FirstAt bytes start o) (byte : bytes[o]? = some ')'.toUInt8) :
      Outcome bytes start (.ok o)
  | nested {o : Nat} (first : FirstAt bytes start o) (byte : bytes[o]? = some '('.toUInt8) :
      Outcome bytes start (.error (.unbalanced o))
  | endless (none : ∀ i, ¬ ParenthesisAt bytes start i)
      (ends : quotingAt bytes start bytes.length = .outside) :
      Outcome bytes start (.error (.unbalanced (start - 1)))
  | unterminated {o : Nat} (none : ∀ i, ¬ ParenthesisAt bytes start i)
      (opened : OpenFrom bytes start o) : Outcome bytes start (.error (.unterminated o))

namespace Outcome

variable {bytes : List UInt8} {start quote i : Nat} {quoted : Bool}

/-- No two ways to end fit the same bytes. -/
theorem unique {r r' : Except Problem Nat} (h : Outcome bytes start r)
    (h' : Outcome bytes start r') :
    r = r' := by
  -- Two outcomes of one kind agree on the byte that decides; two of different kinds contradict each
  -- other there.
  cases h with
  | closed first byte =>
    cases h' with
    | closed first' _ => rw [first.unique first']
    | nested first' byte' =>
      obtain rfl := first.unique first'
      exact absurd (byte.symm.trans byte') (by decide)
    | endless none _ => exact absurd first.parenthesis (none _)
    | unterminated none _ => exact absurd first.parenthesis (none _)
  | nested first byte =>
    cases h' with
    | closed first' byte' =>
      obtain rfl := first.unique first'
      exact absurd (byte.symm.trans byte') (by decide)
    | nested first' _ => rw [first.unique first']
    | endless none _ => exact absurd first.parenthesis (none _)
    | unterminated none _ => exact absurd first.parenthesis (none _)
  | endless none ends =>
    cases h' with
    | closed first' _ => exact absurd first'.parenthesis (none _)
    | nested first' _ => exact absurd first'.parenthesis (none _)
    | endless _ _ => rfl
    | unterminated _ opened => exact absurd ends opened.ends
  | unterminated none opened =>
    cases h' with
    | closed first' _ => exact absurd first'.parenthesis (none _)
    | nested first' _ => exact absurd first'.parenthesis (none _)
    | endless _ ends => exact absurd ends opened.ends
    | unterminated _ opened' => rw [opened.unique opened']

/-- What has been learnt at the end is how the search ends. -/
theorem of_reached_end (h : Reached bytes start quoted quote i) (hend : bytes.length ≤ i) :
    Outcome bytes start
      (.error (if quoted = true then .unterminated quote else .unbalanced (start - 1))) := by
  have hnone : ∀ o, ¬ ParenthesisAt bytes start o := by
    intro o hparenthesis
    exact h.passed o (Nat.lt_of_lt_of_le hparenthesis.lt hend) hparenthesis
  cases quoted with
  | false =>
    rw [if_neg Bool.false_ne_true]
    exact .endless hnone ((quotingAt_of_length_le hend).symm.trans (h.outside_iff.mpr rfl))
  | true =>
    rw [if_pos rfl]
    obtain ⟨hbare, hstays⟩ := h.opened rfl
    exact .unterminated hnone ⟨hbare, fun j hj hle => hstays j hj (Nat.le_trans hle hend)⟩

end Outcome

/-- **Wherever the search has come to, it goes on to an end that tells what the bytes are like.** -/
theorem exists_outcome {bytes : List UInt8} {start : Nat} (hstart : 0 < start) {quoted : Bool}
    {quote i : Nat} (h : Reached bytes start quoted quote i) :
    ∃ r, closingFrom bytes start quoted quote i = .ok r ∧ Outcome bytes start r := by
  by_cases hend : bytes.length ≤ i
  · exact ⟨_, closingFrom_of_length_le hend hstart, .of_reached_end h hend⟩
  · have hbyte : bytes[i]? = some bytes[i] := List.getElem?_eq_getElem (Nat.lt_of_not_le hend)
    generalize bytes[i] = b at hbyte
    rw [closingFrom_of_byteAt (byteAt_eq_ok_iff.mpr hbyte)]
    -- One branch of the scan after the other; where it goes on, what it has reached is kept by the
    -- step.
    by_cases hescape : b = '\\'.toUInt8 ∧ quoted = true
    · obtain ⟨rfl, rfl⟩ := hescape
      rw [if_pos ⟨rfl, rfl⟩]
      exact exists_outcome hstart (h.skip hbyte)
    · rw [if_neg hescape]
      by_cases hquote : b = '"'.toUInt8
      · subst hquote
        rw [if_pos rfl]
        exact exists_outcome hstart (h.toggle hbyte)
      · rw [if_neg hquote]
        by_cases hclose : b = ')'.toUInt8 ∧ quoted = false
        · obtain ⟨rfl, rfl⟩ := hclose
          rw [if_pos ⟨rfl, rfl⟩]
          exact ⟨_, rfl, .closed ⟨.inr (h.bareAt hbyte), h.passed⟩ hbyte⟩
        · rw [if_neg hclose]
          by_cases hopen : b = '('.toUInt8 ∧ quoted = false
          · obtain ⟨rfl, rfl⟩ := hopen
            rw [if_pos ⟨rfl, rfl⟩]
            exact ⟨_, rfl, .nested ⟨.inl (h.bareAt hbyte), h.passed⟩ hbyte⟩
          · rw [if_neg hopen]
            exact exists_outcome hstart (h.pass hbyte hescape hquote hclose hopen)
termination_by bytes.length - i

/-- **The search ends in the one way that fits the bytes.** -/
theorem closing_eq_iff {bytes : List UInt8} {start : Nat} (hstart : 0 < start)
    {r : Except Problem Nat} : closing bytes start = .ok r ↔ Outcome bytes start r := by
  obtain ⟨r', hr', houtcome⟩ := exists_outcome hstart (@Reached.atStart bytes start)
  have hclosing : closing bytes start = .ok r' := hr'
  rw [hclosing, Except.ok.injEq]
  exact ⟨fun h => h ▸ houtcome, fun h => houtcome.unique h⟩

/-- The problem is that of a parenthesis which opens a list, or of a quote which opens a text, at
the offset. -/
def PointsAt (bytes : List UInt8) (start : Nat) (problem : Problem) (o : Nat) : Prop :=
  problem = .unbalanced o ∧ bytes[o]? = some '('.toUInt8 ∨ problem = .unterminated o ∧
    BareAt bytes start '"' o

theorem Outcome.pointsAt {bytes : List UInt8} {start : Nat} {problem : Problem}
    (h : Outcome bytes start (.error problem)) (hlist : bytes[start - 1]? = some '('.toUInt8) :
    ∃ o, PointsAt bytes start problem o := by
  cases h with
  | nested first byte => exact ⟨_, .inl ⟨rfl, byte⟩⟩
  | endless none ends => exact ⟨_, .inl ⟨rfl, hlist⟩⟩
  | unterminated none opened => exact ⟨_, .inr ⟨rfl, opened.bare⟩⟩

/-- **What the search for a closing parenthesis reports is exact.** Of any bytes and any list in
them, it finds the end of the list just if that is the first parenthesis outside quotes; it refuses
a parenthesis behind the list's own just if that one is the first; it says that the list has no end
just if there is no parenthesis outside quotes and all quotes are closed, and that a quote has no
end just if there is none and the bytes end between quotes that this one opened. It always reports
one of these, and a problem points at a parenthesis or a quote that opens. The search by characters
reports the same of a text. -/
theorem closing_outcomes {bytes : List UInt8} {start : Nat} (hstart : 0 < start)
    (hlist : bytes[start - 1]? = some '('.toUInt8) :
    (∀ o, closing bytes start = .ok (.ok o) ↔
      FirstAt bytes start o ∧ bytes[o]? = some ')'.toUInt8) ∧
      (∀ o, start - 1 < o → (closing bytes start = .ok (.error (.unbalanced o)) ↔
        FirstAt bytes start o ∧ bytes[o]? = some '('.toUInt8)) ∧
      (closing bytes start = .ok (.error (.unbalanced (start - 1))) ↔
        (∀ i, ¬ ParenthesisAt bytes start i) ∧ quotingAt bytes start bytes.length = .outside) ∧
      (∀ o, closing bytes start = .ok (.error (.unterminated o)) ↔
        (∀ i, ¬ ParenthesisAt bytes start i) ∧ OpenFrom bytes start o) ∧
      (∃ outcome, closing bytes start = .ok outcome ∧
        ∀ problem, outcome = .error problem → ∃ o, PointsAt bytes start problem o) ∧
      ∀ xs ys, bytes = utf8 (xs ++ ys) → start = byteLength xs →
        closing bytes start = .ok (closedAt start (Directive.closing (start - 1) ys)) := by
  refine ⟨fun o => ?_, fun o ho => ?_, ?_, fun o => ?_, ?_, ?_⟩
  · rw [closing_eq_iff hstart]
    refine ⟨fun h => ?_, fun h => .closed h.1 h.2⟩
    cases h with
    | closed first byte => exact ⟨first, byte⟩
  · rw [closing_eq_iff hstart]
    refine ⟨fun h => ?_, fun h => .nested h.1 h.2⟩
    cases h with
    | nested first byte => exact ⟨first, byte⟩
    | endless => exact absurd ho (Nat.lt_irrefl _)
  · rw [closing_eq_iff hstart]
    refine ⟨fun h => ?_, fun h => .endless h.1 h.2⟩
    -- The list's own parenthesis stands before the bytes that are read, so it is not the one
    -- refused.
    generalize hown : start - 1 = own at h
    cases h with
    | nested first _ => exact absurd first.parenthesis.start_le (by omega)
    | endless none ends => exact ⟨none, ends⟩
  · rw [closing_eq_iff hstart]
    refine ⟨fun h => ?_, fun h => .unterminated h.1 h.2⟩
    cases h with
    | unterminated none opened => exact ⟨none, opened⟩
  · obtain ⟨r, hr, houtcome⟩ := exists_outcome hstart (@Reached.atStart bytes start)
    refine ⟨r, hr, ?_⟩
    rintro problem rfl
    exact houtcome.pointsAt hlist
  · rintro xs ys rfl rfl
    exact closing_utf8 xs ys hstart

/-- Bytes that are no text: a parenthesis in quotes, another one behind a quote that stays open, and
a backslash at the end. -/
theorem closing_outcomes_unterminated :
    let bytes := utf8 "@f(\"a)\", \"(".toList ++ [0xff, '\\'.toUInt8]
    0 < 3 ∧ bytes[3 - 1]? = some '('.toUInt8 ∧ closing bytes 3 = .ok (.error (.unterminated 9)) ∧
      OpenFrom bytes 3 9 := by
  intro bytes
  have hlist : bytes[3 - 1]? = some '('.toUInt8 := by decide +kernel
  have hclosing : closing bytes 3 = .ok (.error (.unterminated 9)) := by decide +kernel
  obtain ⟨-, -, -, hunterminated, -⟩ := closing_outcomes (by decide : 0 < 3) hlist
  exact ⟨by decide, hlist, hclosing, ((hunterminated 9).mp hclosing).2⟩

end AltRender.Directive.Bytes

import AltRender.Proofs.Decimal.ReadBack

/-!
# `Proofs/Decimal/Numeral` — what is read as a number

The reader of numbers looks for a sign, for a point and for digits on either side of it, and some of
these may be missing. Which texts it reads can be said without following it: digits with or without
a sign, or digits with a point among them, before them or behind them, but not a point alone
(`IsNumeral`). There is no exponent, and none of the names for infinities.

What a numeral means is the float nearest to the fraction that its digits stand for. So the relation
between texts and floats is known in both directions (`read?_eq_some_iff`): whoever reads an
argument can tell a number from a word by its characters.
-/

set_option autoImplicit false

namespace AltRender.Decimal

open AltRender.Text

inductive Sign where
  | none
  | plus
  | minus
  deriving DecidableEq

namespace Sign

def written : Sign → List Char
  | none => []
  | plus => ['+']
  | minus => ['-']

def isNegative : Sign → Bool
  | minus => true
  | _ => false

end Sign

/-- **The forms of a number,** with the double that each of them writes: digits, or digits with one
point among them, with or without a sign. -/
inductive IsNumeral : List Char → Float → Prop
  | whole (sign : Sign) {digits : List Char} (hne : digits ≠ [])
      (hdigits : ∀ c ∈ digits, isDigit c = true) :
      IsNumeral (sign.written ++ digits)
        (ofDecimal (sign.isNegative && digitsValue digits != 0) (digitsValue digits) 0)
  | point (sign : Sign) {whole fraction : List Char} (hne : whole ≠ [] ∨ fraction ≠ [])
      (hwhole : ∀ c ∈ whole, isDigit c = true) (hfraction : ∀ c ∈ fraction, isDigit c = true) :
      IsNumeral (sign.written ++ (whole ++ '.' :: fraction))
        (ofDecimal sign.isNegative (digitsValue (whole ++ fraction)) (-(fraction.length : Int)))

theorem splitSign_written (sign : Sign) (cs : List Char) (h : ∀ c ∈ cs.head?, c ≠ '-' ∧ c ≠ '+') :
    splitSign (sign.written ++ cs) = (sign.isNegative, cs) := by
  cases sign with
  | none =>
    cases cs with
    | nil => rfl
    | cons c cs =>
      obtain ⟨hminus, hplus⟩ := h c rfl
      show splitSign (c :: cs) = (false, c :: cs)
      unfold splitSign
      split
      · rename_i heq
        exact absurd (List.cons.inj heq).1 hminus
      · rename_i heq
        exact absurd (List.cons.inj heq).1 hplus
      · rfl
  | plus => rfl
  | minus => rfl

theorem exists_sign (cs : List Char) : ∃ sign : Sign, cs = sign.written ++ (splitSign cs).2 ∧
    (splitSign cs).1 = sign.isNegative := by
  unfold splitSign
  split
  · exact ⟨.minus, rfl, rfl⟩
  · exact ⟨.plus, rfl, rfl⟩
  · exact ⟨.none, rfl, rfl⟩

theorem isNumeral_of_read? {cs : List Char} {x : Float} (h : read? cs = some x) :
    IsNumeral cs x := by
  obtain ⟨sign, hcs, hnegative⟩ := exists_sign cs
  unfold read? at h
  split at h
  · rename_i hwhole
    obtain rfl := Option.some.inj h
    obtain ⟨hne, hdigits⟩ := Bool.and_eq_true_iff.mp hwhole
    have hnumeral : IsNumeral (sign.written ++ (splitSign cs).2) _ :=
      .whole sign (by simpa using hne) (List.all_eq_true.mp hdigits)
    rw [← hcs, ← hnegative] at hnumeral
    exact hnumeral
  · split at h
    · rename_i hfractional
      obtain rfl := Option.some.inj h
      unfold isFractional at hfractional
      cases hpoint : splitPoint (splitSign cs).2 with
      | none =>
        rw [hpoint] at hfractional
        exact absurd hfractional (by simp)
      | some parts =>
        obtain ⟨whole, fraction⟩ := parts
        simp only [hpoint, Bool.and_eq_true, Bool.not_eq_true', Bool.and_eq_false_iff,
          List.isEmpty_eq_false_iff, List.all_eq_true] at hfractional
        obtain ⟨⟨hne, hwhole⟩, hfraction⟩ := hfractional
        have hnumeral := IsNumeral.point sign hne hwhole hfraction
        rw [← eq_append_of_splitPoint hpoint, ← hcs, ← hnegative] at hnumeral
        simp only [fractionalValue, hpoint]
        exact hnumeral
    · exact absurd h (by simp)

theorem read?_of_isNumeral {cs : List Char} {x : Float} (h : IsNumeral cs x) :
    read? cs = some x := by
  cases h with
  | whole sign hne hdigits =>
    rename_i digits
    have hsplit := splitSign_written sign digits fun c hc => by
      obtain ⟨hminus, hplus, -⟩ := ne_of_isDigit (hdigits c (List.mem_of_head? hc))
      exact ⟨hminus, hplus⟩
    have hwhole : isWhole (sign.written ++ digits) = true := by
      simp only [isWhole, hsplit, Bool.and_eq_true, Bool.not_eq_true', List.isEmpty_eq_false_iff,
        List.all_eq_true]
      exact ⟨hne, hdigits⟩
    rw [read?, if_pos hwhole, wholeValue, hsplit]
  | point sign hne hwhole hfraction =>
    rename_i whole fraction
    have hsplit := splitSign_written sign (whole ++ '.' :: fraction) fun c hc => by
      cases whole with
      | nil =>
        obtain rfl := Option.some.inj hc
        decide
      | cons d whole =>
        obtain rfl := Option.some.inj hc
        obtain ⟨hminus, hplus, -⟩ := ne_of_isDigit (hwhole _ List.mem_cons_self)
        exact ⟨hminus, hplus⟩
    have hpoint :=
      splitPoint_append (fun hmem => (ne_of_isDigit (hwhole '.' hmem)).2.2 rfl) fraction
    -- The point is no digit.
    have hnot : ¬ isWhole (sign.written ++ (whole ++ '.' :: fraction)) = true := by
      simp only [isWhole, hsplit, Bool.and_eq_true, List.all_eq_true]
      intro hall
      exact absurd (hall.2 '.' (by simp)) (by decide)
    have hfractional : isFractional (sign.written ++ (whole ++ '.' :: fraction)) = true := by
      simp only [isFractional, hsplit, hpoint, Bool.and_eq_true, Bool.not_eq_true',
        Bool.and_eq_false_iff, List.isEmpty_eq_false_iff, List.all_eq_true]
      exact ⟨⟨hne, hwhole⟩, hfraction⟩
    rw [read?, if_neg hnot, if_pos hfractional, fractionalValue, hsplit]
    simp only [hpoint]

/-- **A text is read as a number if it has one of the forms,** and as the number that this form
writes. -/
theorem read?_eq_some_iff {cs : List Char} {x : Float} : read? cs = some x ↔ IsNumeral cs x :=
  ⟨isNumeral_of_read?, read?_of_isNumeral⟩

end AltRender.Decimal

import AltRender.Decimal.Layout
import AltRender.Decimal.Reading
import AltRender.Proofs.Decimal.Bits
import AltRender.Proofs.Decimal.Nearness

/-!
# `Proofs/Decimal/ReadBack` — printed numbers read back

A number in a listing or a signature is written positionally with its shortest digits. Such a text
is a run of digits, or two of them with a point between, and in either case the reader takes it to
the double nearest to the decimal that was printed, which is the number (`read?_plainText`). One
number is an exception: negative zero prints as `-0`, and a whole number has no negative zero.

So no two numbers are written alike (`plainText_injective`), which is what makes a signature say
what its filter does.
-/

set_option autoImplicit false

namespace AltRender.Decimal

open AltRender.Text

/-! ## Runs of digits -/

theorem digitsValue_eq (cs : List Char) : digitsValue cs = Nat.ofDigitChars 10 cs 0 := by
  rw [digitsValue, Nat.ofDigitChars_eq_foldl]
  congr 1
  funext n c
  rw [digitValue, Nat.mul_comm]

theorem digitsValue_digitsOf (n : Nat) : digitsValue (digitsOf n) = n := by
  rw [digitsValue_eq, digitsOf, Nat.ofDigitChars_ten_toDigits]

theorem digitsValue_append_zeros (cs : List Char) (k : Nat) :
    digitsValue (cs ++ List.replicate k '0') = digitsValue cs * 10 ^ k := by
  rw [digitsValue_eq, digitsValue_eq, Nat.ofDigitChars_append, Nat.ofDigitChars_replicate_zero,
    Nat.mul_comm]

theorem digitsValue_zeros_append (k : Nat) (cs : List Char) :
    digitsValue (List.replicate k '0' ++ cs) = digitsValue cs := by
  rw [digitsValue_eq, digitsValue_eq, Nat.ofDigitChars_append, Nat.ofDigitChars_replicate_zero,
    Nat.mul_zero]

theorem isDigit_of_mem_digitsOf {n : Nat} {c : Char} (h : c ∈ digitsOf n) : isDigit c = true := by
  have hdigit := Nat.isDigit_of_mem_toDigits (by decide) (by decide) h
  rw [Char.isDigit_iff_toNat] at hdigit
  simp only [isDigit, Bool.and_eq_true, decide_eq_true_eq]
  exact hdigit

theorem digitsOf_ne_nil (n : Nat) : digitsOf n ≠ [] := Nat.toDigits_ne_nil

theorem isDigit_of_mem_zeros {k : Nat} {c : Char} (h : c ∈ List.replicate k '0') :
    isDigit c = true := by
  rw [(List.mem_replicate.mp h).2]
  rfl

/-- A digit is neither a sign nor a point. -/
theorem ne_of_isDigit {c : Char} (h : isDigit c = true) : c ≠ '-' ∧ c ≠ '+' ∧ c ≠ '.' := by
  refine ⟨?_, ?_, ?_⟩
  all_goals
    rintro rfl
    exact absurd h (by decide)

/-! ## The text of a decimal -/

/-- **The shape of a printed decimal:** a run of digits, or two of them around a point. -/
inductive Printed (d : Scaled) : List Char → Prop where
  | whole {cs : List Char} (ne : cs ≠ []) (digits : ∀ c ∈ cs, isDigit c = true)
      (nonneg : 0 ≤ d.exponent) (value : digitsValue cs = d.digits * 10 ^ d.exponent.toNat) :
      Printed d cs
  | fractional {front back : List Char} (ne : front ≠ [])
      (digits : ∀ c ∈ front ++ back, isDigit c = true)
      (value : digitsValue (front ++ back) = d.digits)
      (length : (back.length : Int) = -d.exponent) :
      Printed d (front ++ '.' :: back)

theorem printed_text {d : Scaled} (hd : d.digits ≠ 0) : Printed d (d.text Layout.plain) := by
  have hpositional : d.text Layout.plain =
      positionalText Layout.plain (digitsOf d.digits)
        ((digitsOf d.digits).length + d.exponent) := by
    rw [Scaled.text, if_neg hd]
    rfl
  have hne : 0 < (digitsOf d.digits).length := List.length_pos_iff.mpr (digitsOf_ne_nil _)
  have hdigits : ∀ c ∈ digitsOf d.digits, isDigit c = true := fun c => isDigit_of_mem_digitsOf
  have hvalue := digitsValue_digitsOf d.digits
  rw [hpositional]
  generalize digitsOf d.digits = cs at hne hdigits hvalue ⊢
  unfold positionalText
  split
  · rename_i hplace
    -- All digits stand behind the point, after some zeros.
    generalize hk : (-((cs.length : Int) + d.exponent)).toNat = k
    have hlength : ((List.replicate k '0' ++ cs).length : Int) = -d.exponent := by
      rw [List.length_append, List.length_replicate]
      omega
    have hzero : digitsValue (['0'] ++ (List.replicate k '0' ++ cs)) = d.digits := by
      rw [← List.append_assoc, show ['0'] = List.replicate 1 '0' from rfl,
        List.replicate_append_replicate, digitsValue_zeros_append, hvalue]
    refine Printed.fractional (List.cons_ne_nil '0' []) ?_ hzero hlength
    intro c hc
    change c ∈ ['0'] ++ (List.replicate k '0' ++ cs) at hc
    rw [← List.append_assoc, show ['0'] = List.replicate 1 '0' from rfl,
      List.replicate_append_replicate] at hc
    rcases List.mem_append.mp hc with hc | hc
    · exact isDigit_of_mem_zeros hc
    · exact hdigits c hc
  · split
    · rename_i hplace
      have hzeros : cs.length + d.exponent.toNat = ((cs.length : Int) + d.exponent).toNat := by
        omega
      have hcs : cs ≠ [] := List.length_pos_iff.mp hne
      refine Printed.whole (by simp [hcs]) ?_ (by omega) ?_
      · intro c hc
        simp only [Layout.plain, String.toList_empty, List.append_nil] at hc
        rcases List.mem_append.mp hc with hc | hc
        · exact hdigits c hc
        · exact isDigit_of_mem_zeros hc
      · simp only [Layout.plain, String.toList_empty, List.append_nil]
        rw [digitsValue_append_zeros, hvalue, ← hzeros, Nat.add_sub_cancel_left]
    · rename_i hplace₁ hplace₂
      have htake : cs.take ((cs.length : Int) + d.exponent).toNat ≠ [] := by
        rw [Ne, List.take_eq_nil_iff]
        rintro (h | h)
        · omega
        · rw [h] at hne
          exact absurd hne (by simp)
      refine Printed.fractional htake ?_ ?_ ?_
      · rwa [List.take_append_drop]
      · rwa [List.take_append_drop]
      · rw [List.length_drop]
        omega

/-! ## Reading -/

/-- A text with its sign. -/
def withSign (negative : Bool) (cs : List Char) : List Char :=
  if negative then '-' :: cs else cs

theorem splitSign_withSign (negative : Bool) (cs : List Char)
    (h : ∀ c, cs.head? = some c → isDigit c = true) :
    splitSign (withSign negative cs) = (negative, cs) := by
  cases negative with
  | true => rfl
  | false =>
    cases cs with
    | nil => rfl
    | cons c rest =>
      obtain ⟨hminus, hplus, -⟩ := ne_of_isDigit (h c rfl)
      simp only [withSign, Bool.false_eq_true, if_false]
      unfold splitSign
      split
      · rename_i heq
        exact absurd (List.cons.inj heq).1 hminus
      · rename_i heq
        exact absurd (List.cons.inj heq).1 hplus
      · rfl

theorem read?_whole (negative : Bool) {cs : List Char} (hne : cs ≠ [])
    (hdigits : ∀ c ∈ cs, isDigit c = true) :
    read? (withSign negative cs) =
      some (ofDecimal (negative && digitsValue cs != 0) (digitsValue cs) 0) := by
  have hsplit := splitSign_withSign negative cs fun c hc => hdigits c (List.mem_of_head? hc)
  have hwhole : isWhole (withSign negative cs) = true := by
    simp only [isWhole, hsplit, Bool.and_eq_true, Bool.not_eq_true', List.isEmpty_eq_false_iff,
      List.all_eq_true]
    exact ⟨hne, hdigits⟩
  rw [read?, if_pos hwhole, wholeValue, hsplit]

theorem splitPoint_append {front : List Char} (hfront : '.' ∉ front) (back : List Char) :
    splitPoint (front ++ '.' :: back) = some (front, back) := by
  have htake : (front ++ '.' :: back).takeWhile (· != '.') = front := by
    rw [List.takeWhile_append_of_pos]
    · simp
    · intro c hc
      simp only [bne_iff_ne]
      rintro rfl
      exact hfront hc
  have hdrop : (front ++ '.' :: back).dropWhile (· != '.') = '.' :: back := by
    rw [List.dropWhile_append_of_pos]
    · simp
    · intro c hc
      simp only [bne_iff_ne]
      rintro rfl
      exact hfront hc
  unfold splitPoint
  rw [List.span_eq_takeWhile_dropWhile, htake, hdrop]
  rfl

theorem read?_fractional (negative : Bool) {front back : List Char} (hne : front ≠ [])
    (hdigits : ∀ c ∈ front ++ back, isDigit c = true) :
    read? (withSign negative (front ++ '.' :: back)) =
      some (ofDecimal negative (digitsValue (front ++ back)) (-(back.length : Int))) := by
  have hfront : '.' ∉ front :=
    fun h => (ne_of_isDigit (hdigits '.' (List.mem_append_left _ h))).2.2 rfl
  have hsplit := splitSign_withSign negative (front ++ '.' :: back) fun c hc => by
    rw [List.head?_append_of_ne_nil _ hne] at hc
    exact hdigits c (List.mem_append_left _ (List.mem_of_head? hc))
  have hpoint := splitPoint_append hfront back
  have hwhole : ¬ isWhole (withSign negative (front ++ '.' :: back)) = true := by
    simp only [isWhole, hsplit, Bool.and_eq_true, List.all_eq_true]
    intro h
    exact absurd (h.2 '.' (by simp)) (by decide)
  have hfractional : isFractional (withSign negative (front ++ '.' :: back)) = true := by
    simp only [isFractional, hsplit, hpoint, Bool.and_eq_true, Bool.not_eq_true',
      Bool.and_eq_false_iff, List.isEmpty_eq_false_iff, List.all_eq_true]
    exact ⟨⟨.inl hne, fun c hc => hdigits c (List.mem_append_left _ hc)⟩,
      fun c hc => hdigits c (List.mem_append_right _ hc)⟩
  rw [read?, if_neg hwhole, if_pos hfractional, fractionalValue, hsplit]
  simp only [hpoint]

theorem splitSign_cases (cs : List Char) :
    (splitSign cs).2 = cs ∨ ∃ sign ∈ ['-', '+'], cs = sign :: (splitSign cs).2 := by
  unfold splitSign
  split
  · exact .inr ⟨'-', by simp, rfl⟩
  · exact .inr ⟨'+', by simp, rfl⟩
  · exact .inl rfl

theorem eq_append_of_splitPoint {cs whole fraction : List Char}
    (h : splitPoint cs = some (whole, fraction)) : cs = whole ++ '.' :: fraction := by
  unfold splitPoint at h
  rw [List.span_eq_takeWhile_dropWhile] at h
  split at h
  · rename_i before fraction' hspan
    obtain ⟨rfl, rfl⟩ := Prod.mk.inj (Option.some.inj h)
    obtain ⟨hbefore, hbehind⟩ := Prod.mk.inj hspan
    rw [← hbefore, ← hbehind, List.takeWhile_append_dropWhile]
  · exact absurd h (by simp)

/-- **A text that is a number has digits, signs and a point only.** -/
theorem read?_eq_none_of_mem {cs : List Char} {c : Char} (hdigit : isDigit c = false)
    (hmark : c ∉ ['-', '+', '.']) (h : c ∈ cs) : read? cs = none := by
  have hdigits : ∀ ds : List Char, ds.all isDigit = true → c ∉ ds := fun ds hall hmem => by
    rw [List.all_eq_true.mp hall c hmem] at hdigit
    exact Bool.noConfusion hdigit
  -- A sign is the only character that is dropped before the digits, and `c` is none.
  have hrest : c ∈ (splitSign cs).2 := by
    rcases splitSign_cases cs with heq | ⟨sign, hsign, heq⟩
    · rwa [heq]
    · rw [heq] at h
      rcases List.mem_cons.mp h with rfl | hmem
      · exact absurd (List.mem_append_left ['.'] hsign) hmark
      · exact hmem
  have hwhole : isWhole cs = false := by
    rw [isWhole, Bool.and_eq_false_iff]
    refine .inr (Bool.eq_false_iff.mpr fun hall => ?_)
    exact hdigits _ hall hrest
  have hfractional : isFractional cs = false := by
    rw [isFractional]
    split
    · rfl
    · rename_i whole fraction hpoint
      rw [eq_append_of_splitPoint hpoint] at hrest
      refine Bool.eq_false_iff.mpr fun hall => ?_
      simp only [Bool.and_eq_true] at hall
      rcases List.mem_append.mp hrest with hmem | hmem
      · exact hdigits _ hall.1.2 hmem
      · rcases List.mem_cons.mp hmem with rfl | hmem
        · exact hmark (by simp)
        · exact hdigits _ hall.2 hmem
  rw [read?, hwhole, hfractional]
  rfl

/-! ## Reading what was printed -/

theorem ofDecimal_of_roundsTo {x : Float} {negative : Bool} {m : Nat} {e : Int}
    (hx : Exact.ofFloat x = .finite negative m e) {digits : Nat} (hd : 0 < digits) {exponent : Int}
    (h : Binary.double.RoundsTo m e (digits * 10 ^ exponent)) :
    ofDecimal negative digits exponent = x := by
  unfold ofDecimal
  split
  · rename_i he
    lift exponent to Nat using he
    refine toFloat_of_roundsTo hx (Nat.mul_pos hd (Nat.pow_pos (by norm_num))) Nat.one_pos ?_
    rw [Nat.cast_one, div_one]
    simpa using h
  · rename_i he
    have hflip : (10 : ℚ) ^ exponent = ((10 : ℚ) ^ (-exponent).toNat)⁻¹ := by
      rw [← zpow_natCast, ← zpow_neg]
      congr 1
      omega
    refine toFloat_of_roundsTo hx hd (Nat.pow_pos (by norm_num)) ?_
    rw [hflip, ← div_eq_mul_inv] at h
    simpa using h

theorem read?_printed {x : Float} {negative : Bool} {m : Nat} {e : Int}
    (hx : Exact.ofFloat x = .finite negative m e) {d : Scaled} (hd : d.digits ≠ 0)
    (hr : Binary.double.RoundsTo m e d.value) {cs : List Char} (h : Printed d cs) :
    read? (withSign negative cs) = some x := by
  have hpos : 0 < d.digits := Nat.pos_of_ne_zero hd
  cases h with
  | whole ne digits nonneg value =>
    have hvalue : digitsValue cs ≠ 0 := by
      rw [value]
      positivity
    rw [read?_whole negative ne digits]
    rw [bne_iff_ne.mpr hvalue, Bool.and_true, ofDecimal_of_roundsTo hx (Nat.pos_of_ne_zero hvalue)]
    rw [value, zpow_zero, mul_one]
    convert hr using 1
    rw [Scaled.value]
    lift d.exponent to Nat using nonneg with k
    simp
  | fractional ne digits value length =>
    rw [read?_fractional negative ne digits, value, length, neg_neg,
      ofDecimal_of_roundsTo hx hpos hr]

theorem toList_plainText_finite {x : Float} {negative : Bool} {m : Nat} {e : Int}
    (hx : Exact.ofFloat x = .finite negative m e) :
    (plainText x).toList =
      withSign negative ((shortest Binary.double .up m e).text Layout.plain) := by
  rw [plainText, String.toList_ofList, hx]
  rfl

theorem digits_ne_zero_of_roundsTo {f : Binary} {m : Nat} (hm : 0 < m) {e : Int} {d : Scaled}
    (h : f.RoundsTo m e d.value) : d.digits ≠ 0 := by
  intro hzero
  have hlow := h.le.1
  have hreach := f.reachBelow_le m e
  have hm' : (1 : ℚ) ≤ m := by exact_mod_cast hm
  rw [Scaled.value, hzero, Nat.cast_zero, zero_mul, zero_div] at hlow
  linarith

/-- A zero has the least exponent. -/
theorem Binary.Canonical.exponent_zero {f : Binary} {e : Int} (h : f.Canonical 0 e) :
    e = f.minExponent := by
  by_contra hne
  have hnormal := h.normal (lt_of_le_of_ne h.least (Ne.symm hne))
  exact absurd hnormal (Nat.not_le.mpr f.exponentUnit_pos)

theorem round_zero (f : Binary) (den : Nat) : f.round 0 den = 0 := rfl

/-- **The text of a finite number reads back,** unless the number is negative zero. -/
theorem read?_plainText {x : Float} {negative : Bool} {m : Nat} {e : Int}
    (hx : Exact.ofFloat x = .finite negative m e) (hzero : m = 0 → negative = false) :
    read? (plainText x).toList = some x := by
  obtain ⟨hc, -, -⟩ := Exact.ofBits_finite hx
  rw [toList_plainText_finite hx]
  rcases Nat.eq_zero_or_pos m with rfl | hm
  · rw [hzero rfl] at hx ⊢
    have hread : toFloat false 0 1 = x :=
      toFloat_eq_of_bits hx
        (by rw [round_zero, hc.exponent_zero, Int.sub_self, Int.toNat_zero, Nat.zero_mul])
    exact congrArg some hread
  · have hr := shortest_roundsTo (f := Binary.double) (by decide) .up hm hc
    have hd := digits_ne_zero_of_roundsTo hm hr
    exact read?_printed hx hd hr (printed_text hd)

/-! ## The other texts -/

theorem plainText_negativeZero {x : Float} {e : Int} (hx : Exact.ofFloat x = .finite true 0 e) :
    plainText x = "-0" := by
  rw [← String.toList_inj, toList_plainText_finite hx]
  rfl

theorem plainText_notANumber {x : Float} (hx : Exact.ofFloat x = .notANumber) :
    plainText x = "NaN" := by
  rw [plainText, hx]
  rfl

theorem plainText_infinite {x : Float} {negative : Bool}
    (hx : Exact.ofFloat x = .infinite negative) :
    plainText x = if negative then "-inf" else "inf" := by
  rw [plainText, hx]
  cases negative <;> rfl

/-- The number of a text that `plainText` writes, those included that annotations cannot hold. -/
def numberOf (text : String) : Float :=
  if text = "NaN" then Float.ofBits 0x7FF8000000000000
  else if text = "inf" then Float.ofBits 0x7FF0000000000000
  else if text = "-inf" then Float.ofBits 0xFFF0000000000000
  else if text = "-0" then Float.ofBits 0x8000000000000000
  else (read? text.toList).getD 0

theorem numberOf_of_read? {x : Float} {text : String} (h : read? text.toList = some x)
    (hzero : text ≠ "-0") : numberOf text = x := by
  have hword : ∀ word : String, read? word.toList = none → text ≠ word := by
    rintro word hnone rfl
    rw [hnone] at h
    exact absurd h (by simp)
  rw [numberOf, if_neg (hword "NaN" rfl), if_neg (hword "inf" rfl), if_neg (hword "-inf" rfl),
    if_neg hzero, h, Option.getD_some]

/-- Only negative zero is written as such: what `-0` reads as is written `0`. -/
theorem plainText_ne_negativeZero {x : Float} (h : read? (plainText x).toList = some x) :
    plainText x ≠ "-0" := by
  intro htext
  rw [htext] at h
  have hread : read? "-0".toList = some (toFloat false 0 1) := rfl
  have hx : x = toFloat false 0 1 := Option.some.inj (h.symm.trans hread)
  have hexact : Exact.ofFloat x = .finite false 0 Binary.double.minExponent := by
    rw [hx]
    rfl
  have hlist := toList_plainText_finite hexact
  rw [htext] at hlist
  exact absurd hlist (by decide)

theorem numberOf_plainText (x : Float) : numberOf (plainText x) = x := by
  cases hx : Exact.ofFloat x with
  | notANumber =>
    rw [plainText_notANumber hx]
    refine Exact.ofFloat_injective (Eq.trans ?_ hx.symm)
    rfl
  | infinite negative =>
    rw [plainText_infinite hx]
    refine Exact.ofFloat_injective (Eq.trans ?_ hx.symm)
    cases negative <;> rfl
  | finite negative m e =>
    by_cases hodd : m = 0 ∧ negative = true
    · obtain ⟨rfl, rfl⟩ := hodd
      rw [plainText_negativeZero hx]
      refine Exact.ofFloat_injective (Eq.trans ?_ hx.symm)
      rw [(Exact.ofBits_finite hx).1.exponent_zero]
      rfl
    · have hread := read?_plainText hx fun hm => by
        cases negative with
        | false => rfl
        | true => exact absurd ⟨hm, rfl⟩ hodd
      exact numberOf_of_read? hread (plainText_ne_negativeZero hread)

/-- **No two numbers are written alike.** -/
theorem plainText_injective : Function.Injective plainText :=
  Function.LeftInverse.injective numberOf_plainText

/-! ## The characters of a printed number -/

/-- Whether a character may stand in a printed number. -/
def isNumberChar (c : Char) : Bool :=
  isDigit c || "-.NaNinf".toList.contains c

theorem isNumberChar_of_isDigit {c : Char} (h : isDigit c = true) : isNumberChar c = true := by
  rw [isNumberChar, h, Bool.true_or]

theorem digit_or_point_of_printed {d : Scaled} {cs : List Char} (h : Printed d cs) :
    ∀ c ∈ cs, isDigit c = true ∨ c = '.' := by
  intro c hc
  cases h with
  | whole ne digits nonneg value => exact .inl (digits c hc)
  | fractional ne digits value length =>
    rcases List.mem_append.mp hc with hc | hc
    · exact .inl (digits c (List.mem_append_left _ hc))
    · rcases List.mem_cons.mp hc with rfl | hc
      · exact .inr rfl
      · exact .inl (digits c (List.mem_append_right _ hc))

/-- A number without its sign is written in digits with a point at most. -/
theorem digit_or_point_of_mem_text {d : Scaled} {c : Char} (h : c ∈ d.text Layout.plain) :
    isDigit c = true ∨ c = '.' := by
  by_cases hd : d.digits = 0
  · rw [Scaled.text, if_pos hd] at h
    exact .inl (List.all_eq_true.mp (show ['0'].all isDigit = true by decide) c h)
  · exact digit_or_point_of_printed (printed_text hd) c h

theorem isNumberChar_of_mem_text {d : Scaled} {c : Char} (h : c ∈ d.text Layout.plain) :
    isNumberChar c = true := by
  rcases digit_or_point_of_mem_text h with hdigit | rfl
  · exact isNumberChar_of_isDigit hdigit
  · decide

theorem isNumberChar_of_mem_plainText {x : Float} {c : Char} (h : c ∈ (plainText x).toList) :
    isNumberChar c = true := by
  have hword : ∀ word : List Char, word.all isNumberChar = true → c ∈ word →
    isNumberChar c = true :=
    fun word hall hc => List.all_eq_true.mp hall c hc
  cases hx : Exact.ofFloat x with
  | notANumber =>
    rw [plainText_notANumber hx] at h
    exact hword _ (by decide) h
  | infinite negative =>
    rw [plainText_infinite hx] at h
    cases negative with
    | true => exact hword _ (by decide) h
    | false => exact hword _ (by decide) h
  | finite negative m e =>
    rw [toList_plainText_finite hx] at h
    cases negative with
    | false => exact isNumberChar_of_mem_text h
    | true =>
      rcases List.mem_cons.mp h with rfl | h
      · decide
      · exact isNumberChar_of_mem_text h

end AltRender.Decimal

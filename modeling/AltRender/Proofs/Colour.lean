import AltRender.Colour.Bytes
import AltRender.Proofs.Directive.Grammar
import AltRender.Proofs.Filter.Directive
import AltRender.Proofs.Text.Bytes

/-!
# `Proofs/Colour` — which texts are colours, and of which colour

A colour is written as three, four, six or eight hexadecimal digits, and which one it is can be said
digit by digit (`Spells`), and of a text with the blanks and the `#` around its digits (`Denotes`),
without the reader. The reader accepts just these texts and gives just these colours
(`ofHex_eq_ok_iff`). It may as well cut the digits out by their offsets in bytes: nothing but digits
is left when it does, so every cut fits, and every number fits into a byte (`Bytes.ofHex_eq`).

There are two readers of colours. One goes by characters, and statements are about that one; the
other cuts the digits out by bytes, with slices that fault if they cut a character apart. The second
is shown to come to the first without a fault, on every text. One with a character of several bytes,
whose number of bytes could be right by accident, is refused by both before anything is cut out.
-/

set_option autoImplicit false

namespace AltRender.Colour

open AltRender.Text

/-! ## Digits -/

/-- A hexadecimal digit and its value, which is its place among the sixteen. -/
def IsDigitOf (c : Char) (n : Nat) : Prop :=
  "0123456789abcdef".toList[n]? = some c ∨ "0123456789ABCDEF".toList[n]? = some c

instance (c : Char) (n : Nat) : Decidable (IsDigitOf c n) :=
  inferInstanceAs (Decidable (_ ∨ _))

section

variable {c : Char} {n : Nat}

theorem toNat_lt_of_hexValue? (h : hexValue? c = some n) : c.toNat < 128 := by
  refine Nat.lt_of_not_le fun hlarge => ?_
  have hbehind : ∀ d : Char, d.toNat < 128 → ¬ c ≤ d := by
    intro d hd hle
    have hle' : c.toNat ≤ d.toNat := UInt32.le_iff_toNat_le.mp hle
    omega
  simp [hexValue?, isDigit, hbehind '9' (by decide), hbehind 'f' (by decide),
    hbehind 'F' (by decide)] at h

theorem IsDigitOf.lt (h : IsDigitOf c n) : n < 16 := by
  rcases h with h | h
  · exact (List.getElem?_eq_some_iff.mp h).1
  · exact (List.getElem?_eq_some_iff.mp h).1

theorem hexValue?_eq_some_iff : hexValue? c = some n ↔ IsDigitOf c n := by
  constructor
  · intro h
    have hdigits : ∀ k < 128, ∀ m ∈ hexValue? (Char.ofNat k), IsDigitOf (Char.ofNat k) m := by
      decide
    exact Directive.of_ascii
      (P := fun c => ∀ m ∈ hexValue? c, IsDigitOf c m) hdigits (toNat_lt_of_hexValue? h) n h
  · intro h
    have hvalues : ∀ m < 16, "0123456789abcdef".toList[m]?.bind hexValue? = some m ∧
        "0123456789ABCDEF".toList[m]?.bind hexValue? = some m := by
      decide
    obtain ⟨hsmall, hcapital⟩ := hvalues n h.lt
    rcases h with h | h
    · rwa [h] at hsmall
    · rwa [h] at hcapital

theorem IsDigitOf.unique {m : Nat} (h : IsDigitOf c n) (h' : IsDigitOf c m) : n = m :=
  Option.some.inj ((hexValue?_eq_some_iff.mpr h).symm.trans (hexValue?_eq_some_iff.mpr h'))

/-- A digit is a character of names, and nothing that may stand before digits. -/
theorem IsDigitOf.plain (h : IsDigitOf c n) :
    isNameChar c = true ∧ isBlank c = false ∧ c ≠ '#' ∧ c ≠ '+' := by
  have hall : ("0123456789abcdef".toList ++ "0123456789ABCDEF".toList).all
      (fun c => isNameChar c && (!isBlank c && (c != '#' && c != '+'))) = true := by
    decide
  have hmem : c ∈ "0123456789abcdef".toList ++ "0123456789ABCDEF".toList :=
    List.mem_append.mpr (h.imp List.mem_of_getElem? List.mem_of_getElem?)
  simpa using List.all_eq_true.mp hall c hmem

end

/-- The values of some digits, digit by digit. -/
theorem mapM_hexValue?_eq_some_iff {cs : List Char} {values : List Nat} :
    cs.mapM hexValue? = some values ↔ List.Forall₂ IsDigitOf cs values := by
  induction cs generalizing values with
  | nil => simp [eq_comm]
  | cons d cs ih =>
    rw [List.mapM_cons, List.forall₂_cons_left_iff]
    simp only [Option.bind_eq_bind, Option.bind_eq_some_iff, Option.pure_def, Option.some.injEq,
      hexValue?_eq_some_iff, ih]
    constructor
    · intro h
      obtain ⟨n, hn, rest, hrest, rfl⟩ := h
      exact ⟨n, rest, hn, hrest, rfl⟩
    · intro h
      obtain ⟨n, rest, hn, hrest, rfl⟩ := h
      exact ⟨n, hn, rest, hrest, rfl⟩

/-! ## The digits of a colour -/

/-- Two digits and the byte that they write. -/
def IsPair (high low : Char) (b : UInt8) : Prop :=
  ∃ m n, IsDigitOf high m ∧ IsDigitOf low n ∧ b.toNat = 16 * m + n

/-- **The digits that write a colour:** one for each component, which stands for two of itself, or
two. There may be none for the opacity, if that is full. -/
inductive Spells : List Char → Colour → Prop where
  | three {r g b : Char} {c : Colour} (red : IsPair r r c.red) (green : IsPair g g c.green)
      (blue : IsPair b b c.blue) (full : c.alpha = 255) : Spells [r, g, b] c
  | four {r g b a : Char} {c : Colour} (red : IsPair r r c.red) (green : IsPair g g c.green)
      (blue : IsPair b b c.blue) (alpha : IsPair a a c.alpha) : Spells [r, g, b, a] c
  | six {r r' g g' b b' : Char} {c : Colour} (red : IsPair r r' c.red) (green : IsPair g g' c.green)
      (blue : IsPair b b' c.blue) (full : c.alpha = 255) : Spells [r, r', g, g', b, b'] c
  | eight {r r' g g' b b' a a' : Char} {c : Colour} (red : IsPair r r' c.red)
      (green : IsPair g g' c.green) (blue : IsPair b b' c.blue) (alpha : IsPair a a' c.alpha) :
      Spells [r, r', g, g', b, b', a, a'] c

section

variable {high low : Char} {b : UInt8} {cs : List Char} {c : Colour}

theorem isPair_iff :
    IsPair high low b ↔
      ∃ m n, IsDigitOf high m ∧ IsDigitOf low n ∧ UInt8.ofNat (m * 16 + n) = b := by
  refine exists_congr fun m => exists_congr fun n => and_congr_right fun hhigh =>
    and_congr_right fun hlow => ?_
  have hm := hhigh.lt
  have hn := hlow.lt
  rw [← UInt8.toNat_inj, UInt8.toNat_ofNat_of_lt' (by show m * 16 + n < 256; omega)]
  omega

theorem isPair_self_iff {d : Char} :
    IsPair d d b ↔ ∃ m, IsDigitOf d m ∧ UInt8.ofNat (m * 16 + m) = b := by
  rw [isPair_iff]
  constructor
  · intro h
    obtain ⟨m, n, hm, hn, hb⟩ := h
    obtain rfl := hm.unique hn
    exact ⟨m, hm, hb⟩
  · intro h
    obtain ⟨m, hm, hb⟩ := h
    exact ⟨m, m, hm, hm, hb⟩

/-- **The colour that digits spell is the colour of their values.** -/
theorem spells_iff :
    Spells cs c ↔ ∃ values, List.Forall₂ IsDigitOf cs values ∧ ofDigits values = .ok c := by
  constructor
  · intro h
    obtain ⟨r, g, b, a⟩ := c
    cases h with
    | three red green blue full =>
      obtain ⟨m, hr, rfl⟩ := isPair_self_iff.mp red
      obtain ⟨n, hg, rfl⟩ := isPair_self_iff.mp green
      obtain ⟨k, hb, rfl⟩ := isPair_self_iff.mp blue
      obtain rfl : a = 255 := full
      exact ⟨[m, n, k], by simp [hr, hg, hb], rfl⟩
    | four red green blue alpha =>
      obtain ⟨m, hr, rfl⟩ := isPair_self_iff.mp red
      obtain ⟨n, hg, rfl⟩ := isPair_self_iff.mp green
      obtain ⟨k, hb, rfl⟩ := isPair_self_iff.mp blue
      obtain ⟨l, ha, rfl⟩ := isPair_self_iff.mp alpha
      exact ⟨[m, n, k, l], by simp [hr, hg, hb, ha], rfl⟩
    | six red green blue full =>
      obtain ⟨m, m', hr, hr', rfl⟩ := isPair_iff.mp red
      obtain ⟨n, n', hg, hg', rfl⟩ := isPair_iff.mp green
      obtain ⟨k, k', hb, hb', rfl⟩ := isPair_iff.mp blue
      obtain rfl : a = 255 := full
      exact ⟨[m, m', n, n', k, k'], by simp [hr, hr', hg, hg', hb, hb'], rfl⟩
    | eight red green blue alpha =>
      obtain ⟨m, m', hr, hr', rfl⟩ := isPair_iff.mp red
      obtain ⟨n, n', hg, hg', rfl⟩ := isPair_iff.mp green
      obtain ⟨k, k', hb, hb', rfl⟩ := isPair_iff.mp blue
      obtain ⟨l, l', ha, ha', rfl⟩ := isPair_iff.mp alpha
      exact ⟨[m, m', n, n', k, k', l, l'], by simp [hr, hr', hg, hg', hb, hb', ha, ha'], rfl⟩
  · intro h
    -- The number of digits is the case that was read, and the relation says as much of the
    -- characters.
    obtain ⟨values, hvalues, hcolour⟩ := h
    unfold ofDigits at hcolour
    split at hcolour
    · obtain rfl := Except.ok.inj hcolour
      obtain _ | ⟨hr, _ | ⟨hg, _ | ⟨hb, _ | _⟩⟩⟩ := hvalues
      exact .three (isPair_self_iff.mpr ⟨_, hr, rfl⟩) (isPair_self_iff.mpr ⟨_, hg, rfl⟩)
        (isPair_self_iff.mpr ⟨_, hb, rfl⟩) rfl
    · obtain rfl := Except.ok.inj hcolour
      obtain _ | ⟨hr, _ | ⟨hg, _ | ⟨hb, _ | ⟨ha, _ | _⟩⟩⟩⟩ := hvalues
      exact .four (isPair_self_iff.mpr ⟨_, hr, rfl⟩) (isPair_self_iff.mpr ⟨_, hg, rfl⟩)
        (isPair_self_iff.mpr ⟨_, hb, rfl⟩)
        (isPair_self_iff.mpr ⟨_, ha, rfl⟩)
    · obtain rfl := Except.ok.inj hcolour
      obtain _ | ⟨hr, _ | ⟨hr', _ | ⟨hg, _ | ⟨hg', _ | ⟨hb, _ | ⟨hb', _ | _⟩⟩⟩⟩⟩⟩ := hvalues
      exact .six (isPair_iff.mpr ⟨_, _, hr, hr', rfl⟩) (isPair_iff.mpr ⟨_, _, hg, hg', rfl⟩)
        (isPair_iff.mpr ⟨_, _, hb, hb', rfl⟩) rfl
    · obtain rfl := Except.ok.inj hcolour
      obtain _ | ⟨hr,
        _ | ⟨hr', _ | ⟨hg, _ | ⟨hg', _ | ⟨hb, _ | ⟨hb', _ | ⟨ha, _ | ⟨ha', _ | _⟩⟩⟩⟩⟩⟩⟩⟩ := hvalues
      exact .eight (isPair_iff.mpr ⟨_, _, hr, hr', rfl⟩) (isPair_iff.mpr ⟨_, _, hg, hg', rfl⟩)
        (isPair_iff.mpr ⟨_, _, hb, hb', rfl⟩) (isPair_iff.mpr ⟨_, _, ha, ha', rfl⟩)
    · exact absurd hcolour (by simp)

end

/-! ## Which digits are a colour -/

theorem ofDigits_cases (values : List Nat) :
    (∃ c, ofDigits values = .ok c) ∧ values.length ∈ [3, 4, 6, 8] ∨
      ofDigits values = .error (.wrongLength values.length) ∧ values.length ∉ [3, 4, 6, 8] := by
  obtain _ | ⟨_, _ | ⟨_, _ | ⟨_, _ | ⟨_, _ | ⟨_, _ | ⟨_, _ | ⟨_, _ | ⟨_, _ | ⟨_, _⟩⟩⟩⟩⟩⟩⟩⟩⟩ :=
    values <;> simp [ofDigits]

/-- **Only the number of the digits decides whether they are a colour.** -/
theorem exists_spells_iff {cs : List Char} :
    (∃ c, Spells cs c) ↔ cs.length ∈ [3, 4, 6, 8] ∧ ∀ d ∈ cs, ∃ n, IsDigitOf d n := by
  rw [← Directive.exists_forall₂_iff]
  simp only [spells_iff]
  constructor
  · intro h
    obtain ⟨c, values, hvalues, hcolour⟩ := h
    refine ⟨?_, values, hvalues⟩
    rcases ofDigits_cases values with ⟨-, hlength⟩ | ⟨herror, -⟩
    · rwa [hvalues.length_eq]
    · exact absurd (hcolour.symm.trans herror) (by simp)
  · intro h
    obtain ⟨hlength, values, hvalues⟩ := h
    rcases ofDigits_cases values with ⟨⟨c, hcolour⟩, -⟩ | ⟨-, hother⟩
    · exact ⟨c, values, hvalues, hcolour⟩
    · rw [← hvalues.length_eq] at hother
      exact absurd hlength hother

/-! ## Texts -/

/-- **The text writes a colour:** blanks, any number of `#`, digits that spell the colour, and
blanks. -/
def Denotes (text : String) (c : Colour) : Prop :=
  ∃ front marks digits back : List Char, text.toList = front ++ (marks ++ digits ++ back) ∧
    (∀ d ∈ front, isBlank d = true) ∧ (∀ d ∈ marks, d = '#') ∧ (∀ d ∈ back, isBlank d = true) ∧
    Spells digits c

/-- Digits with what may stand around them are what is left when that is cut off. -/
theorem bare_eq {text : String} {front marks digits back : List Char}
    (htext : text.toList = front ++ (marks ++ digits ++ back))
    (hfront : ∀ d ∈ front, isBlank d = true) (hmarks : ∀ d ∈ marks, d = '#')
    (hback : ∀ d ∈ back, isBlank d = true) (hdigits : ∀ d ∈ digits, ∃ n, IsDigitOf d n) :
    Bytes.bare text = digits := by
  have htrimmed : Directive.IsTrimmed (marks ++ digits) := by
    refine .of_forall (List.forall_mem_append.mpr ⟨fun d hd => ?_, fun d hd => ?_⟩)
    · rw [hmarks d hd]
      decide
    · obtain ⟨n, hn⟩ := hdigits d hd
      exact hn.plain.2.1
  rw [Bytes.bare, htext, Directive.trim_append hfront hback htrimmed]
  refine Directive.dropWhile_append_of_forall (fun d hd => by rw [hmarks d hd, beq_self_eq_true])
    fun d hd => ?_
  obtain ⟨n, hn⟩ := hdigits d (List.mem_of_mem_head? hd)
  exact beq_eq_false_iff_ne.mpr hn.plain.2.2.1

theorem denotes_iff {text : String} {c : Colour} : Denotes text c ↔ Spells (Bytes.bare text) c := by
  constructor
  · intro h
    obtain ⟨front, marks, digits, back, htext, hfront, hmarks, hback, hspells⟩ := h
    rwa [bare_eq htext hfront hmarks hback (exists_spells_iff.mp ⟨c, hspells⟩).2]
  · intro h
    obtain ⟨front, back, hfront, hback, htext⟩ := exists_trim_append text.toList
    refine ⟨front, (trim text.toList).takeWhile (· == '#'), Bytes.bare text, back, ?_, hfront,
      fun d hd => ?_, hback, h⟩
    · rw [Bytes.bare, List.takeWhile_append_dropWhile, ← List.append_assoc, htext]
    · have hmark : (d == '#') = true := List.mem_takeWhile_imp (p := (· == '#')) hd
      exact eq_of_beq hmark

theorem ofHex_eq_match (text : String) : ofHex text =
    match (Bytes.bare text).mapM hexValue? with
    | none => .error (.notHexadecimal (String.ofList (Bytes.bare text)))
    | some values => ofDigits values := rfl

/-- **The colour that is read is the colour that the text writes.** -/
theorem ofHex_eq_ok_iff {text : String} {c : Colour} : ofHex text = .ok c ↔ Denotes text c := by
  simp only [denotes_iff, spells_iff, ← mapM_hexValue?_eq_some_iff]
  rw [ofHex_eq_match]
  cases (Bytes.bare text).mapM hexValue? with
  | none => simp
  | some values => simp

/-! ## Reading by bytes -/

namespace Bytes

/-- In a text of single bytes characters are cut out by their number. -/
theorem slice_of_isNameChar {cs : List Char} (h : ∀ c ∈ cs, isNameChar c = true) {start stop : Nat}
    (hle : start ≤ stop) (hstop : stop ≤ cs.length) :
    slice (String.ofList cs) start stop = .ok (String.ofList ((cs.take stop).drop start)) := by
  have hstart : byteLength ((cs.take stop).take start) = start := by
    rw [Directive.byteLength_of_isNameChar fun c hc =>
      h c (List.mem_of_mem_take (List.mem_of_mem_take hc))]
    simp only [List.length_take]
    omega
  have hend : byteLength ((cs.take stop).take start ++ (cs.take stop).drop start) = stop := by
    rw [List.take_append_drop, Directive.byteLength_of_isNameChar fun c hc =>
      h c (List.mem_of_mem_take hc), List.length_take]
    omega
  have htext : (String.ofList cs).toList =
    (cs.take stop).take start ++ (cs.take stop).drop start ++ cs.drop stop := by
    rw [List.take_append_drop, List.take_append_drop, String.toList_ofList]
  have hslice := slice_append htext
  rwa [hend, hstart] at hslice

/-- Digits alone write the number of their values. -/
theorem number?_digits {d : Char} {m : Nat} {part : List Char} {values : List Nat}
    (hd : IsDigitOf d m) (hpart : List.Forall₂ IsDigitOf part values)
    (hbyte : (m :: values).foldl (fun n value => n * 16 + value) 0 < 256) :
    number? (d :: part) =
      some (UInt8.ofNat ((m :: values).foldl (fun n value => n * 16 + value) 0)) := by
  have hdigits : (if (d :: part).head? = some '+' then (d :: part).tail else d :: part) =
    d :: part :=
    if_neg fun h => hd.plain.2.2.2 (Option.some.inj h)
  have hvalues : (d :: part).mapM hexValue? = some (m :: values) :=
    mapM_hexValue?_eq_some_iff.mpr (.cons hd hpart)
  simp only [number?, hdigits, hvalues, Option.bind_eq_bind, Option.bind_some, List.isEmpty_cons,
    Bool.false_or, decide_eq_true_eq]
  exact if_neg (Nat.not_le_of_lt hbyte)

theorem number?_one {d : Char} {m : Nat} (hd : IsDigitOf d m) :
    number? [d] = some (UInt8.ofNat m) := by
  have hm := hd.lt
  have hnumber := number?_digits hd .nil (by simp only [List.foldl]; omega)
  simpa only [List.foldl, Nat.zero_mul, Nat.zero_add] using hnumber

theorem number?_two {d e : Char} {m n : Nat} (hd : IsDigitOf d m) (he : IsDigitOf e n) :
    number? [d, e] = some (UInt8.ofNat (m * 16 + n)) := by
  have hm := hd.lt
  have hn := he.lt
  have hnumber := number?_digits hd (.cons he .nil) (by simp only [List.foldl]; omega)
  simpa only [List.foldl, Nat.zero_mul, Nat.zero_add] using hnumber

section

variable {cs : List Char}

/-- A part of a text of single bytes that is a number. -/
theorem numberAt_eq (hcs : ∀ c ∈ cs, isNameChar c = true) {start count : Nat} {part : List Char}
    {b : UInt8} (hpart : (cs.take (start + count)).drop start = part) (hcount : part.length = count)
    (hnumber : number? part = some b) :
    numberAt (String.ofList cs) start (start + count) = .ok b := by
  have hne : part ≠ [] := by
    rintro rfl
    exact absurd hnumber (by simp [number?])
  have hpos := List.length_pos_iff.mpr hne
  have hstop : start + count ≤ cs.length := by
    rw [← hpart, List.length_drop, List.length_take] at hcount hpos
    omega
  have hslice := slice_of_isNameChar hcs (Nat.le_add_right start count) hstop
  rw [hpart] at hslice
  simp only [numberAt, hslice, String.toList_ofList, hnumber]

/-- A component of one digit is that digit twice, and no more than a byte. -/
theorem short_eq (hcs : ∀ c ∈ cs, isNameChar c = true) (i : Nat) {d : Char} {m : Nat}
    (hd : IsDigitOf d m) (hpart : (cs.take (i + 1)).drop i = [d]) :
    short (String.ofList cs) i = .ok (UInt8.ofNat (m * 16 + m)) := by
  have hm := hd.lt
  have hvalue : (UInt8.ofNat m).toNat = m := UInt8.toNat_ofNat_of_lt' (Nat.lt_trans hm (by decide))
  have hproduct : UInt8.ofNat m * 17 = UInt8.ofNat (m * 16 + m) := by
    rw [← UInt8.toNat_inj, UInt8.toNat_mul, hvalue,
      UInt8.toNat_ofNat_of_lt' (by show m * 16 + m < 256; omega)]
    show m * 17 % 256 = m * 16 + m
    omega
  rw [short, numberAt_eq hcs hpart rfl (number?_one hd)]
  show (if (UInt8.ofNat m).toNat * 17 < 256 then Except.ok (UInt8.ofNat m * 17) else .error _) = _
  rw [hvalue, if_pos (by omega), hproduct]

theorem long_eq (hcs : ∀ c ∈ cs, isNameChar c = true) (i : Nat) {d e : Char} {m n : Nat}
    (hd : IsDigitOf d m) (he : IsDigitOf e n) (hpart : (cs.take (i + 2)).drop i = [d, e]) :
    long (String.ofList cs) i = .ok (UInt8.ofNat (m * 16 + n)) :=
  numberAt_eq hcs hpart rfl (number?_two hd he)

/-- **The components that are cut out are those of the values,** without a fault. -/
theorem ofDigits_eq {values : List Nat} (h : List.Forall₂ IsDigitOf cs values) :
    ofDigits (String.ofList cs) = .ok (Colour.ofDigits values) := by
  have hcs : ∀ c ∈ cs, isNameChar c = true := by
    intro c hc
    obtain ⟨n, hn⟩ := Directive.exists_forall₂_iff.mp ⟨values, h⟩ c hc
    exact hn.plain.1
  have hlength : (utf8 (String.ofList cs).toList).length = cs.length := by
    rw [String.toList_ofList, length_utf8, Directive.byteLength_of_isNameChar hcs]
  rw [ofDigits, hlength]
  -- Up to eight digits the number of them is known, and with it what is cut out.
  obtain _ | ⟨h₁,
    _ | ⟨h₂, _ | ⟨h₃, _ | ⟨h₄, _ | ⟨h₅, _ | ⟨h₆, _ | ⟨h₇, _ | ⟨h₈, _ | ⟨h₉, hrest⟩⟩⟩⟩⟩⟩⟩⟩⟩ := h
  · rfl
  · rfl
  · rfl
  · simp only [List.length_cons, List.length_nil]
    rw [short_eq hcs 0 h₁ rfl, short_eq hcs 1 h₂ rfl, short_eq hcs 2 h₃ rfl]
    rfl
  · simp only [List.length_cons, List.length_nil]
    rw [short_eq hcs 0 h₁ rfl, short_eq hcs 1 h₂ rfl, short_eq hcs 2 h₃ rfl, short_eq hcs 3 h₄ rfl]
    rfl
  · rfl
  · simp only [List.length_cons, List.length_nil]
    rw [long_eq hcs 0 h₁ h₂ rfl, long_eq hcs 2 h₃ h₄ rfl, long_eq hcs 4 h₅ h₆ rfl]
    rfl
  · rfl
  · simp only [List.length_cons, List.length_nil]
    rw [long_eq hcs 0 h₁ h₂ rfl, long_eq hcs 2 h₃ h₄ rfl, long_eq hcs 4 h₅ h₆ rfl,
      long_eq hcs 6 h₇ h₈ rfl]
    rfl
  · simp only [Colour.ofDigits, List.length_cons, hrest.length_eq]
    rfl

end

/-- **Colours read by their bytes are those that are read by characters,** and there is no fault on
the way. -/
theorem ofHex_eq (text : String) : ofHex text = .ok (Colour.ofHex text) := by
  have hdigits : ((bare text).all fun c => (hexValue? c).isSome) = true ↔
      ∃ values, List.Forall₂ IsDigitOf (bare text) values := by
    simp only [List.all_eq_true, Option.isSome_iff_exists, hexValue?_eq_some_iff,
      Directive.exists_forall₂_iff]
  rw [ofHex, ofHex_eq_match]
  cases hvalues : (bare text).mapM hexValue? with
  | none =>
    have hnone : ¬ ((bare text).all fun c => (hexValue? c).isSome) = true := by
      rw [hdigits]
      intro h
      obtain ⟨values, hdigit⟩ := h
      exact absurd (hvalues.symm.trans (mapM_hexValue?_eq_some_iff.mpr hdigit)) (by simp)
    rw [if_neg hnone]
    rfl
  | some values =>
    have h := mapM_hexValue?_eq_some_iff.mp hvalues
    rw [if_pos (hdigits.mpr ⟨values, h⟩), ofDigits_eq h]

end Bytes

/-! ## Printing -/

/-- The printed form depends on the colour, and the colour on the printed form. -/
theorem toHex_inj {c c' : Colour} : c.toHex = c'.toHex ↔ c = c' := by
  refine ⟨fun h => ?_, congrArg toHex⟩
  have hread := congrArg ofHex h
  rw [ofHex_toHex, ofHex_toHex] at hread
  exact Except.ok.inj hread

theorem map_toHex_eq_ok_iff {text printed : String} :
    (ofHex text).map toHex = .ok printed ↔ ∃ c, Denotes text c ∧ c.toHex = printed := by
  simp only [← ofHex_eq_ok_iff]
  cases ofHex text <;> simp [Except.map]

/-- **Colours are read exactly and printed faithfully.** A text is a colour just if three, four, six
or eight hexadecimal digits are left of it without the blanks around it and the `#` before it; what
is read then is the colour that the digits write, a digit alone standing for two of itself and full
opacity for none; and whatever the text is, cutting the digits out by their bytes does the same
without a fault. The printed form of a colour that was read is read as that colour again, and two
texts that are read are printed alike just if they write the same colour. -/
theorem ofHex_faithful (text : String) :
    Bytes.ofHex text = .ok (ofHex text) ∧
      ((∃ c, ofHex text = .ok c) ↔
        (Bytes.bare text).length ∈ [3, 4, 6, 8] ∧ ∀ d ∈ Bytes.bare text, ∃ n, IsDigitOf d n) ∧
      (∀ c, ofHex text = .ok c ↔ Denotes text c) ∧
      ((ofHex text).bind fun c => ofHex c.toHex) = ofHex text ∧
      ∀ text', (∃ c, Denotes text c ∧ Denotes text' c) ↔
        ∃ printed, (ofHex text).map toHex = .ok printed ∧
          (ofHex text').map toHex = .ok printed := by
  refine ⟨Bytes.ofHex_eq text, ?_, fun _ => ofHex_eq_ok_iff, ?_, fun text' => ?_⟩
  · simp only [ofHex_eq_ok_iff, denotes_iff, exists_spells_iff]
  · cases ofHex text with
    | error reason => rfl
    | ok c => simp only [Except.bind, ofHex_toHex]
  · simp only [map_toHex_eq_ok_iff]
    constructor
    · intro h
      obtain ⟨c, hwritten, hwritten'⟩ := h
      exact ⟨c.toHex, ⟨c, hwritten, rfl⟩, c, hwritten', rfl⟩
    · intro h
      obtain ⟨printed, ⟨c, hwritten, rfl⟩, c', hwritten', hsame⟩ := h
      obtain rfl := toHex_inj.mp hsame
      exact ⟨c', hwritten, hwritten'⟩

/-- A no-break space before two marks; and a text of three bytes with a character of two. -/
example :
    ofHex "\u00a0##f0F\n" = .ok (solid 255 0 255) ∧ ofHex "ßa" = .error (.notHexadecimal "ßa") := by
  decide +kernel

end AltRender.Colour

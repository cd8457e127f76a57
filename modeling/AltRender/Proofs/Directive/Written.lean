import AltRender.Proofs.Decimal.ReadBack
import AltRender.Proofs.Directive.Compose
import AltRender.Proofs.Directive.Sealed
import Mathlib.Data.List.TakeWhile

/-!
# `Proofs/Directive/Written` — directives written out and read back

Whoever writes annotations by program wants to know that any parameters can be put into one. They
can: a text goes between quotes, with a backslash before each quote and each backslash; a flag that
is set is its key alone; a number is its decimal text. Blanks may stand anywhere between the parts,
and other text around the directives. What is read is then what was written
(`specs_annotationText`). Three values have no written form: the flag that is not set, a number that
is not finite, and negative zero, which reads back as zero.

How a directive is laid out is left open as far as possible (`Layout`): any text without an `@`
before it, and any blanks inside the list, those of Unicode included. The only thing that is asked
of the text in front is that it does not end in a character that would make the `@` part of a word.
-/

set_option autoImplicit false

namespace AltRender.Keyed

variable {κ α : Type} [DecidableEq κ]

theorem put_of_not_mem {k : κ} {v : α} {es : List (κ × α)} (h : k ∉ es.map Prod.fst) :
    put k v es = es ++ [(k, v)] := by
  induction es with
  | nil => rfl
  | cons e es ih =>
    obtain ⟨hne, hrest⟩ := not_or.mp (mt List.mem_cons.mpr h)
    rw [put, if_neg (Ne.symm hne), ih hrest, List.cons_append]

theorem entries_foldl_insert {m : Keyed κ α} {es : List (κ × α)}
    (h : ((m.entries ++ es).map Prod.fst).Nodup) :
    (es.foldl (fun m e => m.insert e.1 e.2) m).entries = m.entries ++ es := by
  induction es generalizing m with
  | nil => rw [List.foldl_nil, List.append_nil]
  | cons e es ih =>
    have hnew : e.1 ∉ m.entries.map Prod.fst := fun hmem => by
      rw [List.map_append, List.map_cons] at h
      exact (List.nodup_append.mp h).2.2 _ hmem _ List.mem_cons_self rfl
    have hput : (m.insert e.1 e.2).entries = m.entries ++ [e] := put_of_not_mem hnew
    rw [List.foldl_cons, ih, hput, List.append_assoc, List.singleton_append]
    rwa [hput, List.append_assoc, List.singleton_append]

/-- **Put in again in their order, the entries make the same parameters.** -/
theorem ofList_entries (m : Keyed κ α) : ofList m.entries = m := by
  obtain ⟨es, hd⟩ := m
  have hentries : (ofList es).entries = es := entries_foldl_insert (m := empty) hd
  cases hm : ofList es with
  | mk es' hd' =>
    rw [hm] at hentries
    subst hentries
    rfl

end AltRender.Keyed

namespace AltRender.Directive

open AltRender.Text

/-! ## Blanks around a text -/

/-- The text has no blank at its ends. -/
structure IsTrimmed (cs : List Char) : Prop where
  head : ∀ c ∈ cs.head?, isBlank c = false
  last : ∀ c ∈ cs.getLast?, isBlank c = false

theorem IsTrimmed.of_forall {cs : List Char} (h : ∀ c ∈ cs, isBlank c = false) : IsTrimmed cs :=
  ⟨fun c hc => h c (List.mem_of_head? hc), fun c hc => h c (List.mem_of_getLast? hc)⟩

/-- Only the ends matter. -/
theorem IsTrimmed.append {as bs : List Char} (ha : IsTrimmed as) (hb : IsTrimmed bs)
    (hane : as ≠ []) (hbne : bs ≠ []) (middle : List Char) : IsTrimmed (as ++ (middle ++ bs)) := by
  refine ⟨fun c hc => ha.head c ?_, fun c hc => hb.last c ?_⟩
  · rwa [List.head?_append_of_ne_nil _ hane] at hc
  · rwa [← List.append_assoc, List.getLast?_append_of_ne_nil _ hbne] at hc

theorem dropWhile_append_of_forall {α : Type} {p : α → Bool} {front : List α}
    (hfront : ∀ c ∈ front, p c = true) {cs : List α} (hcs : ∀ c ∈ cs.head?, p c = false) :
    (front ++ cs).dropWhile p = cs := by
  induction front with
  | nil =>
    cases cs with
    | nil => rfl
    | cons c cs => exact List.dropWhile_cons_of_neg (by simp [hcs c rfl])
  | cons d front ih =>
    obtain ⟨hd, hrest⟩ := List.forall_mem_cons.mp hfront
    rw [List.cons_append, List.dropWhile_cons_of_pos hd, ih hrest]

/-- **Blanks around a text are cut,** and nothing else. -/
theorem trim_append {front back cs : List Char} (hfront : ∀ c ∈ front, isBlank c = true)
    (hback : ∀ c ∈ back, isBlank c = true) (hcs : IsTrimmed cs) :
    trim (front ++ (cs ++ back)) = cs := by
  cases cs with
  | nil =>
    have hblank : ∀ c ∈ front ++ back, isBlank c = true :=
      List.forall_mem_append.mpr ⟨hfront, hback⟩
    have hstart := @dropWhile_append_of_forall _ _ _ hblank [] (by simp)
    rw [List.append_nil] at hstart
    rw [trim, trimStart, List.nil_append, hstart]
    rfl
  | cons c cs =>
    have hstart : trimStart (front ++ (c :: cs ++ back)) = c :: cs ++ back :=
      dropWhile_append_of_forall hfront hcs.head
    rw [trim, hstart, trimEnd, List.reverse_append,
      dropWhile_append_of_forall fun d hd => hback d (List.mem_reverse.mp hd), List.reverse_reverse]
    rw [List.head?_reverse]
    exact hcs.last

theorem of_ascii {P : Char → Prop} (h : ∀ n < 128, P (Char.ofNat n)) {c : Char}
    (hc : c.toNat < 128) :
    P c := by
  have hchar := h c.toNat hc
  rwa [Char.ofNat_toNat] at hchar

/-- The characters that mean something to the reader of an argument list, the quote apart. -/
def marks : List Char := ['(', ')', ',', '=']

/-- A character of a word is no blank, no quote and no mark. -/
theorem plain_of_isWordChar {c : Char} (h : isWordChar c = true) :
    isBlank c = false ∧ c ≠ '"' ∧ c ∉ marks := by
  have hall : ∀ n < 128, isWordChar (Char.ofNat n) = true →
      isBlank (Char.ofNat n) = false ∧ Char.ofNat n ≠ '"' ∧ Char.ofNat n ∉ marks := by
    decide
  exact of_ascii (P := fun c => isWordChar c = true → isBlank c = false ∧ c ≠ '"' ∧ c ∉ marks) hall
    (toNat_lt_of_isWordChar h) h

theorem isTrimmed_of_isWordChar {cs : List Char} (h : ∀ c ∈ cs, isWordChar c = true) :
    IsTrimmed cs :=
  .of_forall fun c hc => (plain_of_isWordChar (h c hc)).1

theorem isSealed_of_isWordChar {cs : List Char} (h : ∀ c ∈ cs, isWordChar c = true) :
    IsSealed marks cs :=
  .of_forall fun c hc => (plain_of_isWordChar (h c hc)).2

/-! ## The written form -/

/-- Blanks between two parts of an argument list. -/
structure Blanks where
  chars : List Char
  blank : ∀ c ∈ chars, isBlank c = true

theorem Blanks.isSealed (b : Blanks) : IsSealed marks b.chars := by
  have hmarks : ∀ d ∈ '"' :: marks, (!isBlank d) = true := List.all_eq_true.mp (by decide)
  refine .of_forall fun c hc => not_or.mp (mt List.mem_cons.mpr fun hmem => ?_)
  exact absurd (b.blank c hc) (by simpa using hmarks c hmem)

/-- The blanks in and around an argument. -/
structure Spacing where
  before : Blanks
  beforeSign : Blanks
  afterSign : Blanks
  after : Blanks

/-- How a directive is laid out: the text before its `@`, the blanks of a list without arguments,
and for each key the blanks in and around its argument. -/
structure Layout where
  gap : List Char
  plain : '@' ∉ gap
  apart : ∀ c ∈ gap.getLast?, isNameChar c = false
  inside : Blanks
  spacing : String → Spacing

/-- What stands behind the equals sign of a key. A flag is its key alone. -/
def valueText : Value → Option (List Char)
  | .number x => some (Decimal.plainText x).toList
  | .text s => some (quote s.toList)
  | .flag _ => none

/-- An argument without the blanks around it. -/
def argumentText (spacing : Spacing) (argument : String × Value) : List Char :=
  match valueText argument.2 with
  | none => argument.1.toList
  | some text =>
    argument.1.toList ++ spacing.beforeSign.chars ++ '=' :: (spacing.afterSign.chars ++ text)

/-- An argument between its blanks. -/
def paddedText (layout : Layout) (argument : String × Value) : List Char :=
  let spacing := layout.spacing argument.1
  spacing.before.chars ++ (argumentText spacing argument ++ spacing.after.chars)

/-- What stands between the parentheses. -/
def listText (layout : Layout) (parameters : Parameters) : List Char :=
  if parameters.entries = [] then layout.inside.chars
  else intercalate ',' (parameters.entries.map (paddedText layout))

def directiveText (layout : Layout) (spec : Spec) : List Char :=
  layout.gap ++ '@' :: (spec.name.toList ++ '(' :: (listText layout spec.parameters ++ [')']))

/-- **An annotation that asks for the given filters,** each laid out in its own way, with a text at
the end. -/
def annotationText (ending : List Char) : List (Layout × Spec) → List Char
  | [] => ending
  | (layout, spec) :: rest => directiveText layout spec ++ annotationText ending rest

end AltRender.Directive

namespace AltRender

open AltRender.Decimal AltRender.Directive

/-- Whether a value has a written form. -/
def Value.IsWritable : Value → Prop
  | .number x => ∃ negative m e, Exact.ofFloat x = .finite negative m e ∧ (m = 0 → negative = false)
  | .text _ => True
  | .flag b => b = true

/-- Whether a request can be written: its name and its keys are runs of name characters, its values
have a written form. -/
structure Spec.IsWritable (spec : Spec) : Prop where
  name : isKey spec.name.toList = true
  keys : ∀ argument ∈ spec.parameters.entries, isKey argument.1.toList = true
  values : ∀ argument ∈ spec.parameters.entries, argument.2.IsWritable

end AltRender

namespace AltRender.Directive

open AltRender.Text

/-! ## One value, one argument -/

/-- What the readers need to know of the text of a value. -/
structure IsValueText (value : Value) (text : List Char) : Prop where
  ne_nil : text ≠ []
  trimmed : IsTrimmed text
  isSealed : IsSealed marks text
  reads : readValue text = some value

theorem isWordChar_of_isNumberChar {c : Char} (h : Decimal.isNumberChar c = true) :
    isWordChar c = true := by
  rw [Decimal.isNumberChar, Bool.or_eq_true] at h
  rcases h with h | h
  · simp [isWordChar, isNameChar, h]
  · have hall : ∀ d ∈ "-.NaNinf".toList, isWordChar d = true := List.all_eq_true.mp (by decide)
    exact hall c (List.contains_iff_mem.mp h)

theorem isValueText_number {x : Float} (h : (Value.number x).IsWritable) :
    IsValueText (.number x) (Decimal.plainText x).toList := by
  obtain ⟨negative, m, e, hx, hzero⟩ := h
  have hread := Decimal.read?_plainText hx hzero
  have hword : ∀ c ∈ (Decimal.plainText x).toList, isWordChar c = true :=
    fun c hc => isWordChar_of_isNumberChar (Decimal.isNumberChar_of_mem_plainText hc)
  refine ⟨fun hnil => ?_, isTrimmed_of_isWordChar hword, isSealed_of_isWordChar hword, ?_⟩
  · rw [hnil, show Decimal.read? [] = none by decide] at hread
    exact absurd hread (by simp)
  · rw [readValue, hread]

theorem isValueText_text (s : String) : IsValueText (.text s) (quote s.toList) := by
  have hlast : (quote s.toList).getLast? = some '"' := by
    rw [quote, ← List.cons_append, List.getLast?_concat]
  have hhead : (quote s.toList).head? = some '"' := rfl
  refine ⟨List.cons_ne_nil _ _, ⟨?_, ?_⟩, isSealed_quote (by decide) _, ?_⟩
  · rw [hhead]
    rintro c ⟨⟩
    rfl
  · rw [hlast]
    rintro c ⟨⟩
    rfl
  · rw [readValue,
      Decimal.read?_eq_none_of_mem (by decide) (by decide) (List.mem_of_mem_head? hhead)]
    simp only [hhead, if_true, unquote_quote, Option.map_some, String.ofList_toList]

/-- A word that is no number stands for itself. -/
theorem isValueText_word {s : String} (hne : s.toList ≠ [])
    (hword : ∀ c ∈ s.toList, isWordChar c = true) (hread : Decimal.read? s.toList = none) :
    IsValueText (.text s) s.toList := by
  have hquote : s.toList.head? ≠ some '"' := fun hhead =>
    (plain_of_isWordChar (hword _ (List.mem_of_mem_head? hhead))).2.1 rfl
  have hchars : (!s.toList.isEmpty && s.toList.all isWordChar) = true := by
    rw [Bool.and_eq_true, Bool.not_eq_true', List.isEmpty_eq_false_iff, List.all_eq_true]
    exact ⟨hne, hword⟩
  refine ⟨hne, isTrimmed_of_isWordChar hword, isSealed_of_isWordChar hword, ?_⟩
  rw [readValue, hread]
  simp only [if_neg hquote, if_pos hchars, String.ofList_toList]

/-- What the reader of a list needs to know of an argument between its blanks. -/
structure IsArgumentText (argument : String × Value) (text : List Char) : Prop where
  ne_nil : text ≠ []
  trimmed : IsTrimmed text
  isSealed : IsSealed ['(', ')', ','] text
  reads : readEntry text = .ok argument

theorem trim_of_isTrimmed {cs : List Char} (h : IsTrimmed cs) : trim cs = cs := by
  have htrim := @trim_append [] [] cs (by simp) (by simp) h
  rwa [List.nil_append, List.append_nil] at htrim

/-- A key alone is a flag. -/
theorem isArgumentText_flag {key : String} (hkey : isKey key.toList = true) :
    IsArgumentText (key, .flag true) key.toList := by
  obtain ⟨hne, hname⟩ := Bool.and_eq_true_iff.mp hkey
  have hword : ∀ c ∈ key.toList, isWordChar c = true :=
    fun c hc => isWordChar_of_isNameChar (List.all_eq_true.mp hname c hc)
  have htrimmed := isTrimmed_of_isWordChar hword
  have hsealed := isSealed_of_isWordChar hword
  refine ⟨by simpa using hne, htrimmed, hsealed.mono (by decide), ?_⟩
  rw [readEntry, pieces_of_isSealed (hsealed.mono (by decide)), List.map_singleton,
    trim_of_isTrimmed htrimmed]
  simp only [hkey, if_true, String.ofList_toList]

/-- **A key, an equals sign and the text of a value are the argument,** with blanks on both sides of
the sign. -/
theorem isArgumentText_value {key : String} (hkey : isKey key.toList = true) {value : Value}
    {text : List Char} (h : IsValueText value text) (front back : Blanks) :
    IsArgumentText (key, value) (key.toList ++ front.chars ++ '=' :: (back.chars ++ text)) := by
  obtain ⟨hne, hname⟩ := Bool.and_eq_true_iff.mp hkey
  have hword : ∀ c ∈ key.toList, isWordChar c = true :=
    fun c hc => isWordChar_of_isNameChar (List.all_eq_true.mp hname c hc)
  have hkeyTrimmed := isTrimmed_of_isWordChar hword
  have hkeySealed := isSealed_of_isWordChar hword
  have hne' : key.toList ≠ [] := by simpa using hne
  have hfront : IsSealed marks (key.toList ++ front.chars) := hkeySealed.append front.isSealed
  have hback : IsSealed marks (back.chars ++ text) := back.isSealed.append h.isSealed
  refine ⟨by simp [hne'], ?_, ?_, ?_⟩
  · have hmiddle : key.toList ++ front.chars ++ '=' :: (back.chars ++ text) =
        key.toList ++ (front.chars ++ '=' :: back.chars ++ text) := by simp
    rw [hmiddle]
    exact hkeyTrimmed.append h.trimmed hne' h.ne_nil _
  · exact (hfront.mono (by decide)).append (.cons (by decide) (by decide) (hback.mono (by decide)))
  · have hkeyTrim : trim (key.toList ++ front.chars) = key.toList :=
      @trim_append [] _ _ (by simp) front.blank hkeyTrimmed
    have hvalueTrim : trim (back.chars ++ text) = text := by
      have htrim := @trim_append _ [] _ back.blank (by simp) h.trimmed
      rwa [List.append_nil] at htrim
    rw [readEntry, pieces_append (hfront.mono (by decide)),
      pieces_of_isSealed (hback.mono (by decide)),
      List.map_cons, List.map_singleton, hkeyTrim, hvalueTrim]
    simp only [hkey, if_true, h.reads, String.ofList_toList]

/-- **Every argument that has a written form reads as itself.** -/
theorem isArgumentText_argumentText {argument : String × Value}
    (hkey : isKey argument.1.toList = true) (hvalue : argument.2.IsWritable) (spacing : Spacing) :
    IsArgumentText argument (argumentText spacing argument) := by
  obtain ⟨key, value⟩ := argument
  cases value with
  | number x => exact isArgumentText_value hkey (isValueText_number hvalue) _ _
  | text s => exact isArgumentText_value hkey (isValueText_text s) _ _
  | flag b =>
    obtain rfl : b = true := hvalue
    exact isArgumentText_flag hkey

/-! ## Lists of arguments -/

theorem mapM_map_of_forall {m : Type → Type} [Monad m] [LawfulMonad m] {α β : Type} {f : α → m β}
    {g : β → α} {ys : List β} (h : ∀ y ∈ ys, f (g y) = pure y) : (ys.map g).mapM f = pure ys := by
  induction ys with
  | nil => rfl
  | cons y ys ih =>
    obtain ⟨hy, hys⟩ := List.forall_mem_cons.mp h
    rw [List.map_cons, List.mapM_cons, hy, ih hys, pure_bind, pure_bind]

/-- **Arguments between commas are read in their order,** each from a text for it between blanks. -/
theorem readArguments_intercalate (text padded : String × Value → List Char)
    {arguments : List (String × Value)} (hne : arguments ≠ [])
    (htext : ∀ argument ∈ arguments, IsArgumentText argument (text argument))
    (htrim : ∀ argument ∈ arguments, trim (padded argument) = text argument)
    (hsealed : ∀ argument ∈ arguments, IsSealed ['(', ')', ','] (padded argument)) :
    IsSealed ['(', ')'] (intercalate ',' (arguments.map padded)) ∧
      readArguments (intercalate ',' (arguments.map padded)) = .ok (Keyed.ofList arguments) := by
  have hpieces : ∀ p ∈ arguments.map padded, IsSealed ['(', ')', ','] p := by
    intro p hp
    obtain ⟨argument, hmem, rfl⟩ := List.mem_map.mp hp
    exact hsealed argument hmem
  have hentries : entries (intercalate ',' (arguments.map padded)) = arguments.map text := by
    rw [entries, pieces_intercalate (by simpa using hne) fun p hp =>
      (hpieces p hp).mono (by decide), List.map_map,
      show arguments.map (trim ∘ padded) = arguments.map text from List.map_congr_left htrim,
      List.filter_eq_self]
    intro t hin
    obtain ⟨argument, hmem, rfl⟩ := List.mem_map.mp hin
    simp [(htext argument hmem).ne_nil]
  refine ⟨.intercalate (by decide) (by decide) fun p hp => (hpieces p hp).mono (by decide), ?_⟩
  rw [readArguments, hentries, mapM_map_of_forall fun argument hmem => (htext argument hmem).reads]
  rfl

/-- **The list that is written is read as the parameters.** -/
theorem readArguments_listText {parameters : Parameters} (layout : Layout)
    (hkeys : ∀ argument ∈ parameters.entries, isKey argument.1.toList = true)
    (hvalues : ∀ argument ∈ parameters.entries, argument.2.IsWritable) :
    IsSealed ['(', ')'] (listText layout parameters) ∧
    readArguments (listText layout parameters) = .ok parameters := by
  have htext : ∀ argument ∈ parameters.entries,
      IsArgumentText argument (argumentText (layout.spacing argument.1) argument) :=
    fun argument hmem => isArgumentText_argumentText (hkeys argument hmem) (hvalues argument hmem) _
  -- An empty list is its blanks alone; otherwise the arguments stand between commas, each with
  -- blanks around it.
  by_cases hnone : parameters.entries = []
  · have hblanks := layout.inside.isSealed
    have htrim : trim layout.inside.chars = [] := by
      have htrim := @trim_append _ [] [] layout.inside.blank (by simp) (.of_forall (by simp))
      rwa [List.append_nil, List.append_nil] at htrim
    have hempty : Keyed.ofList [] = parameters := by rw [← hnone, Keyed.ofList_entries]
    rw [listText, if_pos hnone]
    refine ⟨hblanks.mono (by decide), ?_⟩
    rw [readArguments, entries, pieces_of_isSealed (hblanks.mono (by decide)), List.map_singleton,
      htrim]
    exact congrArg Except.ok hempty
  · have hblanks : ∀ b : Blanks, IsSealed ['(', ')', ','] b.chars :=
      fun b => b.isSealed.mono (by decide)
    have hlist := readArguments_intercalate _ (paddedText layout) hnone htext
      (fun argument hmem =>
        trim_append (layout.spacing _).before.blank (layout.spacing _).after.blank
        (htext argument hmem).trimmed)
      (fun argument hmem => (hblanks _).append ((htext argument hmem).isSealed.append (hblanks _)))
    rw [Keyed.ofList_entries] at hlist
    rwa [listText, if_neg hnone]

/-! ## Directives -/

theorem attemptsFrom_gap {gap : List Char} (h : '@' ∉ gap) (attached : Bool) (offset : Nat)
    (cs : List Char) :
    attemptsFrom attached offset (gap ++ cs) =
      attemptsFrom ((gap.getLast?.map isNameChar).getD attached) (offset + byteLength gap) cs := by
  induction gap generalizing attached offset with
  | nil => rfl
  | cons c gap ih =>
    obtain ⟨hc, hgap⟩ := not_or.mp (mt List.mem_cons.mpr h)
    rw [List.cons_append, attemptsFrom, if_neg fun hat => hc hat.1.symm, ih hgap, byteLength_cons,
      Nat.add_assoc, List.getLast?_cons]
    cases gap.getLast? <;> rfl

/-- A name behind an `@` starts an attempt, which ends where its tail does. -/
theorem attemptsFrom_directive {offset : Nat} {name cs : List Char} (hne : name ≠ [])
    (hname : ∀ c ∈ name, isNameChar c = true) (hcs : ∀ c ∈ cs.head?, isNameChar c = false) :
    attemptsFrom false offset ('@' :: (name ++ cs)) =
      ⟨offset, String.ofList name, (readTail (offset + 1 + name.length) cs).1⟩ ::
        attemptsFrom false (readTail (offset + 1 + name.length) cs).2.1
          (readTail (offset + 1 + name.length) cs).2.2 := by
  have htake : (name ++ cs).takeWhile isNameChar = name := by
    rw [List.takeWhile_append_of_pos hname]
    cases cs with
    | nil => simp
    | cons c cs => simp [hcs c rfl]
  have hdrop : (name ++ cs).dropWhile isNameChar = cs := dropWhile_append_of_forall hname hcs
  rw [attemptsFrom, htake, hdrop, if_pos ⟨rfl, rfl, by simpa using hne⟩]

/-- **A name with a list that is read is one attempt,** and reading goes on behind the list. -/
theorem attemptsFrom_call {name list : List Char} {parameters : Parameters}
    (hname : isKey name = true) (hsealed : IsSealed ['(', ')'] list)
    (hread : readArguments list = .ok parameters) (offset : Nat) (rest : List Char) :
    ∃ behind, attemptsFrom false offset ('@' :: (name ++ '(' :: (list ++ ')' :: rest))) =
      ⟨offset, String.ofList name, .ok parameters⟩ :: attemptsFrom false behind rest := by
  obtain ⟨hne, hchars⟩ := Bool.and_eq_true_iff.mp hname
  have hparen : ∀ c ∈ ('(' :: (list ++ ')' :: rest)).head?, isNameChar c = false := by
    rintro c ⟨⟩
    decide
  have htail : ∀ behind, readTail behind ('(' :: (list ++ ')' :: rest)) =
      (.ok parameters, behind + byteLength list + 2, rest) := by
    intro behind
    simp only [readTail, closing_of_isSealed hsealed, hread]
  rw [attemptsFrom_directive (by simpa using hne) (List.all_eq_true.mp hchars) hparen, htail]
  exact ⟨_, rfl⟩

/-- A directive that is written is read as one attempt, and reading goes on behind it. -/
theorem attemptsFrom_directiveText {spec : Spec} (hspec : spec.IsWritable) (layout : Layout)
    (offset : Nat) (rest : List Char) :
    ∃ offset' behind,
      attemptsFrom false offset (directiveText layout spec ++ rest) =
        ⟨offset', spec.name, .ok spec.parameters⟩ :: attemptsFrom false behind rest := by
  obtain ⟨hsealed, hread⟩ := readArguments_listText layout hspec.keys hspec.values
  have hattached : (layout.gap.getLast?.map isNameChar).getD false = false := by
    cases hlast : layout.gap.getLast? with
    | none => rfl
    | some c => exact layout.apart c hlast
  have hshape : directiveText layout spec ++ rest =
      layout.gap ++ '@' ::
        (spec.name.toList ++ '(' :: (listText layout spec.parameters ++ ')' :: rest)) := by
    simp [directiveText]
  obtain ⟨behind, hcall⟩ :=
    attemptsFrom_call hspec.name hsealed hread (offset + byteLength layout.gap) rest
  rw [String.ofList_toList] at hcall
  exact ⟨_, behind, by rw [hshape, attemptsFrom_gap layout.plain, hattached, hcall]⟩

theorem filterMap_annotationText {ending : List Char} (hending : '@' ∉ ending)
    {requests : List (Layout × Spec)} (h : ∀ request ∈ requests, request.2.IsWritable)
    (offset : Nat) :
    (attemptsFrom false offset (annotationText ending requests)).filterMap Attempt.spec? =
      requests.map Prod.snd ∧
      (attemptsFrom false offset (annotationText ending requests)).filterMap Attempt.diagnostic? =
        [] := by
  induction requests generalizing offset with
  | nil =>
    have hnone := attemptsFrom_gap hending false offset []
    rw [List.append_nil, attemptsFrom] at hnone
    rw [annotationText, hnone]
    exact ⟨rfl, rfl⟩
  | cons request requests ih =>
    obtain ⟨layout, spec⟩ := request
    obtain ⟨hspec, hrest⟩ := List.forall_mem_cons.mp h
    obtain ⟨offset', behind, hfirst⟩ :=
      attemptsFrom_directiveText hspec layout offset (annotationText ending requests)
    obtain ⟨hspecs, hdiagnostics⟩ := ih hrest behind
    rw [annotationText, hfirst, List.filterMap_cons, List.filterMap_cons, hspecs, hdiagnostics]
    exact ⟨rfl, rfl⟩

/-- **What is written is read.** Requests that have a written form are read back as they are, in
their order and with nothing to report, whatever blanks stand in their lists and whatever text
without an `@` stands around them. -/
theorem specs_annotationText {ending : List Char} (hending : '@' ∉ ending)
    {requests : List (Layout × Spec)} (h : ∀ request ∈ requests, request.2.IsWritable) :
    specs (String.ofList (annotationText ending requests)) = requests.map Prod.snd ∧
      diagnostics (String.ofList (annotationText ending requests)) = [] := by
  rw [specs, diagnostics, attempts, String.toList_ofList]
  exact filterMap_annotationText hending h 0

/-- Two requests without a gap between them, the first one with every mark in a text. -/
def markedRequests : List (Layout × Spec) :=
  let blanks : (c : Char) → isBlank c = true → Blanks :=
    fun c h => ⟨[c], List.forall_mem_singleton.mpr h⟩
  let noBlanks : Blanks := ⟨[], List.forall_mem_nil _⟩
  let spacing : Spacing := ⟨blanks ' ' rfl, blanks '\t' rfl, blanks '\u00a0' rfl, noBlanks⟩
  [(⟨"größer: ".toList, by decide, by simp [isNameChar, isLetter, isDigit], noBlanks,
    fun _ => spacing⟩,
      ⟨"tone",
        ⟨[("text", .text "\"\\,=()@ ß"), ("bold", .flag true), ("n", .number (-2.5))], by decide⟩⟩),
    (⟨[], by decide, by simp, blanks ' ' rfl, fun _ => spacing⟩, ⟨"invert", Keyed.empty⟩)]

theorem specs_annotationText_marked :
    specs "größer: @tone( text\t=\u00a0\"\\\"\\\\,=()@ ß\", bold, n\t=\u00a0-2.5)@invert( )!" =
        markedRequests.map Prod.snd ∧
      diagnostics
        "größer: @tone( text\t=\u00a0\"\\\"\\\\,=()@ ß\", bold, n\t=\u00a0-2.5)@invert( )!" =
          [] := by
  have htext : String.ofList (annotationText ['!'] markedRequests) =
      "größer: @tone( text\t=\u00a0\"\\\"\\\\,=()@ ß\", bold, n\t=\u00a0-2.5)@invert( )!" := by
    decide +kernel
  have hwritable : ∀ request ∈ markedRequests, request.2.IsWritable := by
    refine List.forall_mem_cons.mpr ⟨⟨by decide, by decide, ?_⟩,
      List.forall_mem_singleton.mpr ⟨by decide, ?_, ?_⟩⟩
    · refine List.forall_mem_cons.mpr ⟨trivial,
        List.forall_mem_cons.mpr ⟨rfl, List.forall_mem_singleton.mpr ?_⟩⟩
      exact ⟨true, 5629499534213120, -51, by decide +kernel, by simp⟩
    · exact List.forall_mem_nil _
    · exact List.forall_mem_nil _
  rw [← htext]
  exact specs_annotationText (by decide) hwritable

end AltRender.Directive

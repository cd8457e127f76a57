import AltRender.Proofs.Directive.Written
import AltRender.Proofs.Filter.Signature

/-!
# `Proofs/Filter/Directive` — a signature is a directive for its filter

Signatures are made for the names of cache entries, yet they are written like directives, and they
are: behind an `@` a signature is read as one request, for which the built-in registry makes the
filter that was signed (`resolve_signature`). So what a signature writes of a parameter is all there
is to it, and the reader takes it as it was meant: a number as that number, a colour as one with the
same limits, a side as that side. Each filter has defaults for what it cannot use, so a text that
was read in another way would not be refused but lost.

Infinities, what is no number and negative zero have no written form among arguments and are left
out.
-/

set_option autoImplicit false

namespace AltRender

open AltRender.Text

/-! ## Colours -/

namespace Colour

theorem hexValue?_hexDigit : ∀ capital, ∀ n < 16, hexValue? (hexDigit capital n) = some n := by
  decide

/-- The digits of some bytes are read as the two halves of each. -/
theorem mapM_hexValue?_hexByte (bytes : List UInt8) :
    (bytes.flatMap (hexByte true)).mapM hexValue? =
      some (bytes.flatMap fun b => [b.toNat / 16, b.toNat % 16]) := by
  induction bytes with
  | nil => rfl
  | cons b bytes ih =>
    have hb := b.toNat_lt
    have hhigh := hexValue?_hexDigit true (b.toNat / 16) (by omega)
    have hlow := hexValue?_hexDigit true (b.toNat % 16) (by omega)
    simp [hexByte, hhigh, hlow, ih]

theorem ofNat_halves (b : UInt8) : UInt8.ofNat (b.toNat / 16 * 16 + b.toNat % 16) = b := by
  rw [Nat.div_add_mod']
  exact UInt8.ofNat_toNat

/-- The components that are written. -/
def written (c : Colour) : List UInt8 :=
  if c.alpha = 255 then [c.red, c.green, c.blue] else [c.red, c.green, c.blue, c.alpha]

theorem toList_toHex (c : Colour) : c.toHex.toList = '#' :: c.written.flatMap (hexByte true) := by
  rw [toHex, String.toList_ofList, written]
  split <;> simp

theorem exists_hexDigit_of_mem {bytes : List UInt8} {d : Char}
    (h : d ∈ bytes.flatMap (hexByte true)) : ∃ n < 16, d = hexDigit true n := by
  obtain ⟨b, -, hd⟩ := List.mem_flatMap.mp h
  have hb := b.toNat_lt
  simp only [hexByte, List.mem_cons, List.not_mem_nil, or_false] at hd
  rcases hd with rfl | rfl
  · exact ⟨_, by omega, rfl⟩
  · exact ⟨_, by omega, rfl⟩

theorem isWordChar_of_mem_toHex {c : Colour} {d : Char} (h : d ∈ c.toHex.toList) :
    Directive.isWordChar d = true := by
  have hdigit : ∀ n < 16, Directive.isWordChar (hexDigit true n) = true := by decide
  rw [toList_toHex] at h
  rcases List.mem_cons.mp h with rfl | h
  · rfl
  · obtain ⟨n, hn, rfl⟩ := exists_hexDigit_of_mem h
    exact hdigit n hn

/-- The colour of the digits of its written components. -/
theorem ofDigits_written (c : Colour) :
    ofDigits (c.written.flatMap fun b => [b.toNat / 16, b.toNat % 16]) = .ok c := by
  obtain ⟨r, g, b, a⟩ := c
  rw [written]
  split
  · rename_i halpha
    subst halpha
    change Except.ok (solid (UInt8.ofNat _) (UInt8.ofNat _) (UInt8.ofNat _)) = _
    rw [ofNat_halves, ofNat_halves, ofNat_halves]
    rfl
  · change Except.ok (Colour.mk (UInt8.ofNat _) (UInt8.ofNat _) (UInt8.ofNat _) (UInt8.ofNat _)) = _
    rw [ofNat_halves, ofNat_halves, ofNat_halves, ofNat_halves]

/-- **A printed colour reads back.** -/
theorem ofHex_toHex (c : Colour) : ofHex c.toHex = .ok c := by
  have htrim : trim c.toHex.toList = c.toHex.toList :=
    Directive.trim_of_isTrimmed (Directive.isTrimmed_of_isWordChar fun d => isWordChar_of_mem_toHex)
  have hdigit : ∀ n < 16, (hexDigit true n == '#') = false := by decide
  have hdrop : ('#' :: c.written.flatMap (hexByte true)).dropWhile (· == '#') =
    c.written.flatMap (hexByte true) := by
    change (['#'] ++ _).dropWhile _ = _
    refine Directive.dropWhile_append_of_forall (by simp) fun d hd => ?_
    obtain ⟨n, hn, rfl⟩ := exists_hexDigit_of_mem (List.mem_of_mem_head? hd)
    exact hdigit n hn
  rw [ofHex, htrim, toList_toHex, hdrop]
  simp only [mapM_hexValue?_hexByte, ofDigits_written]

end Colour

/-! ## Arguments that ask for a filter -/

/-- The limits as an argument: a number, or the text of the colour. -/
def Cutout.Threshold.value : Cutout.Threshold → Value
  | .uniform limit => .number limit
  | .colour c => .text (Colour.solid c.red c.green c.blue).toHex

/-- The arguments that ask for an effect. -/
def Effect.arguments : Effect → List (String × Value)
  | .invert => []
  | .contrast amount => [("amount", .number amount)]
  | .boostLightness amount => [("amount", .number amount)]
  | .transparent threshold side => [("threshold", threshold.value), ("remove", .text side.word)]
  | .sharpness amount => [("amount", .number amount)]

namespace Builtin

def arguments : Builtin → List (String × Value)
  | .effect e => e.arguments
  | .darkmode => []

/-- The number a filter was made with, its amount or the one limit of all channels, if it has
one. -/
def number? : Builtin → Option Float
  | .effect (.contrast amount) => some amount
  | .effect (.boostLightness amount) => some amount
  | .effect (.transparent (.uniform limit) _) => some limit
  | .effect (.sharpness amount) => some amount
  | _ => none

/-- A signature shows the arguments. -/
theorem parameters_eq (b : Builtin) :
    b.parameters = b.arguments.map fun a => (a.1, a.2.display) := by
  cases b with
  | effect e =>
    cases e with
    | transparent threshold side => cases threshold <;> rfl
    | _ => rfl
  | darkmode => rfl

theorem isKey_name (b : Builtin) : Directive.isKey b.name.toList = true := by
  have hall : ∀ name ∈ makers.map Prod.fst, Directive.isKey name.toList = true := by decide
  exact hall _ b.name_mem_makers

theorem isKey_arguments (b : Builtin) : ∀ a ∈ b.arguments, Directive.isKey a.1.toList = true := by
  cases b with
  | effect e =>
    cases e <;> simp [arguments, Effect.arguments, Directive.isKey, isNameChar, isLetter, isDigit]
  | darkmode => simp [arguments]

/-- **What a signature shows of an argument is read as the argument.** -/
theorem isValueText_arguments {b : Builtin} (h : ∀ x ∈ b.number?, (Value.number x).IsWritable) :
    ∀ a ∈ b.arguments, Directive.IsValueText a.2 a.2.display.toList := by
  have hcolour : ∀ c : Colour, Directive.IsValueText (.text c.toHex) c.toHex.toList := fun c =>
    Directive.isValueText_word (by simp [Colour.toList_toHex])
      (fun d => Colour.isWordChar_of_mem_toHex)
      (Decimal.read?_eq_none_of_mem
        (c := '#') (by decide) (by decide) (by simp [Colour.toList_toHex]))
  have hside : ∀ side : Cutout.Side, Directive.IsValueText (.text side.word) side.word.toList := by
    intro side
    have hmark : 'o' ∈ side.word.toList := by cases side <;> decide
    have hchars : side.word.toList.all Directive.isWordChar = true := by cases side <;> rfl
    exact Directive.isValueText_word (List.ne_nil_of_mem hmark) (List.all_eq_true.mp hchars)
      (Decimal.read?_eq_none_of_mem (by decide) (by decide) hmark)
  -- The amounts are numbers, the thresholds numbers or colours, and the sides words; a word has a
  -- character in it that no number has.
  cases b with
  | darkmode => exact List.forall_mem_nil _
  | effect e =>
    cases e with
    | invert => exact List.forall_mem_nil _
    | contrast amount =>
      exact List.forall_mem_singleton.mpr (Directive.isValueText_number (h amount rfl))
    | boostLightness amount =>
      exact List.forall_mem_singleton.mpr (Directive.isValueText_number (h amount rfl))
    | sharpness amount =>
      exact List.forall_mem_singleton.mpr (Directive.isValueText_number (h amount rfl))
    | transparent threshold side =>
      refine List.forall_mem_cons.mpr ⟨?_, List.forall_mem_singleton.mpr (hside side)⟩
      cases threshold with
      | uniform limit => exact Directive.isValueText_number (h limit rfl)
      | colour c => exact hcolour _

theorem get?_threshold (threshold : Cutout.Threshold) (side : Cutout.Side) :
    (Keyed.ofList (Effect.arguments (.transparent threshold side))).get? "threshold" =
      some threshold.value := by
  rfl

/-- The opacity that a colour loses on the way plays no part in a signature either. -/
theorem thresholdOf_arguments (threshold : Cutout.Threshold) (side : Cutout.Side) :
    (Effect.thresholdOf (Keyed.ofList (Effect.arguments (.transparent threshold side)))).text =
      threshold.text := by
  rw [Effect.thresholdOf, get?_threshold]
  cases threshold with
  | uniform limit => simp only [Cutout.Threshold.value]
  | colour c =>
    simp only [Cutout.Threshold.value, Colour.ofHex_toHex, Cutout.Threshold.text]
    rfl

theorem sideOf_arguments (threshold : Cutout.Threshold) (side : Cutout.Side) :
    Effect.sideOf (Keyed.ofList (Effect.arguments (.transparent threshold side))) = side := by
  cases side <;> rfl

/-- **The arguments make a filter with the same signature.** -/
theorem exists_create_arguments (b : Builtin) :
    ∃ b' : Builtin, Registry.builtin.create b.name (Keyed.ofList b.arguments) = some b'.toFilter ∧
      b'.signature = b.signature := by
  cases b with
  | darkmode => exact ⟨.darkmode, rfl, rfl⟩
  | effect e =>
    cases e with
    | invert => exact ⟨.effect .invert, rfl, rfl⟩
    | contrast amount => exact ⟨.effect (.contrast amount), rfl, rfl⟩
    | boostLightness amount => exact ⟨.effect (.boostLightness amount), rfl, rfl⟩
    | sharpness amount => exact ⟨.effect (.sharpness amount), rfl, rfl⟩
    | transparent threshold side =>
      refine ⟨.effect (Effect.transparentOf
        (Keyed.ofList (Effect.arguments (.transparent threshold side)))), rfl, ?_⟩
      simp only [signature, Effect.signature, Effect.transparentOf, Effect.name, Effect.parameters,
        thresholdOf_arguments, sideOf_arguments]

/-- **Built-in filters with one signature are one filter.** -/
theorem toFilter_eq_of_signature {b b' : Builtin} (h : b.signature = b'.signature) :
    b.toFilter = b'.toFilter := by
  have hparts := h
  rw [signature_eq, signature_eq] at hparts
  have hname :=
    (signatureText_injective b.isPlain_name b'.isPlain_name b.plain_parameters b'.plain_parameters
      hparts).1
  rw [toFilter, toFilter, hname, h, apply_eq_of_signature h]

end Builtin

/-! ## Signatures as directives -/

namespace Directive

theorem intercalate_eq (delimiter : Char) (ps : List (List Char)) :
    intercalate delimiter ps = [delimiter].intercalate ps := by
  induction ps with
  | nil => rfl
  | cons p rest ih => cases rest with
    | nil => rw [intercalate, List.intercalate_singleton]
    | cons next rest =>
      rw [intercalate, ih, List.intercalate_cons_cons, List.append_assoc, List.singleton_append]

/-- **A signature behind an `@` is one attempt,** with the arguments it shows. -/
theorem attempts_signatureText {name : String} (hname : isKey name.toList = true)
    {arguments : List (String × Value)} (hkeys : ∀ a ∈ arguments, isKey a.1.toList = true)
    (hvalues : ∀ a ∈ arguments, IsValueText a.2 a.2.display.toList) :
    attempts ("@" ++ signatureText name (arguments.map fun a => (a.1, a.2.display))) =
      [⟨0, name, .ok (Keyed.ofList arguments)⟩] := by
  rw [attempts, String.toList_append, toList_signatureText, argumentsText, List.isEmpty_map]
  by_cases hlist : arguments = []
  · subst hlist
    obtain ⟨hne, hchars⟩ := Bool.and_eq_true_iff.mp hname
    have hattempt := @attemptsFrom_directive 0 name.toList [] (by simpa using hne)
      (List.all_eq_true.mp hchars) (by simp)
    rw [readTail, attemptsFrom, String.ofList_toList] at hattempt
    · exact hattempt
    · simp
  · have htext : ∀ a ∈ arguments, IsArgumentText a (parameterText (a.1, a.2.display)) := by
      intro a ha
      have hargument := isArgumentText_value (hkeys a ha) (hvalues a ha) ⟨[], by simp⟩ ⟨[], by simp⟩
      rwa [List.append_nil, List.nil_append] at hargument
    obtain ⟨hsealed, hread⟩ := readArguments_intercalate _ _ hlist htext
      (fun a ha => trim_of_isTrimmed (htext a ha).trimmed) (fun a ha => (htext a ha).isSealed)
    obtain ⟨behind, hcall⟩ := attemptsFrom_call hname hsealed hread 0 []
    rw [attemptsFrom, String.ofList_toList, intercalate_eq] at hcall
    rw [List.map_map, if_neg (by simpa using hlist)]
    exact hcall

end Directive

namespace Registry

open AltRender.Directive

/-- **A signature is a directive for its filter.** For every filter that the built-in registry makes
under some name with some arguments, if the number it was made with is finite and not negative zero,
the signature behind an `@` is read as one request and nothing to report, and the chain of that
request is the filter, with its signature and all that it does. -/
theorem resolve_signature {name : String} {ps : Parameters} {f : Filter}
    (h : builtin.create name ps = some f) :
    (∃ b : Builtin, f = b.toFilter) ∧
      ∀ b : Builtin, f = b.toFilter → (∀ x ∈ b.number?, (Value.number x).IsWritable) →
        ∃ spec, specs ("@" ++ f.signature) = [spec] ∧ diagnostics ("@" ++ f.signature) = [] ∧
          ∃ g, builtin.resolve [spec] = [g] ∧ g.signature = f.signature ∧ g.apply = f.apply := by
  refine ⟨exists_of_create_builtin h, ?_⟩
  rintro b rfl hnumber
  have hattempts :=
    attempts_signatureText b.isKey_name b.isKey_arguments (Builtin.isValueText_arguments hnumber)
  rw [← b.parameters_eq, ← b.signature_eq] at hattempts
  obtain ⟨b', hcreate, hsignature⟩ := b.exists_create_arguments
  have hfilter := Builtin.toFilter_eq_of_signature hsignature
  refine ⟨⟨b.name, Keyed.ofList b.arguments⟩, ?_, ?_, b'.toFilter, ?_, ?_, ?_⟩
  · rw [specs, Builtin.toFilter, hattempts]
    rfl
  · rw [diagnostics, Builtin.toFilter, hattempts]
    rfl
  · rw [resolve, List.filterMap_cons, hcreate]
    rfl
  · rw [hfilter]
  · rw [hfilter]

/-- The side in capital letters and the threshold in a number with a sign. -/
theorem resolve_signature_above :
    let ps : Parameters :=
      (Keyed.empty.insert "threshold" (.number (-2.5))).insert "remove" (.text "ABOVE")
    let b : Builtin := .effect (.transparent (.uniform (-2.5)) .above)
    builtin.create "transparent" ps = some b.toFilter ∧
      b.toFilter.signature = "transparent(threshold=-2.5,remove=above)" ∧
      (∀ x ∈ b.number?, (Value.number x).IsWritable) ∧
      ∃ spec, specs ("@" ++ b.toFilter.signature) = [spec] ∧
        diagnostics ("@" ++ b.toFilter.signature) = [] ∧
        ∃ g, builtin.resolve [spec] = [g] ∧ g.signature = b.toFilter.signature ∧
          g.apply = b.toFilter.apply := by
  intro ps b
  have hcreate : builtin.create "transparent" ps = some b.toFilter := rfl
  have hnumber : ∀ x ∈ b.number?, (Value.number x).IsWritable := by
    rintro x ⟨⟩
    exact ⟨true, 5629499534213120, -51, by decide +kernel, by simp⟩
  exact ⟨hcreate, by decide +kernel, hnumber, (resolve_signature hcreate).2 b rfl hnumber⟩

end Registry

end AltRender

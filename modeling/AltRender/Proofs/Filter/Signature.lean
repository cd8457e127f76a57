import AltRender.Proofs.Decimal.ReadBack
import AltRender.Registry

/-!
# `Proofs/Filter/Signature` — a signature says what its filter does

A signature is a name and the texts of the resolved parameters. None of these texts holds a
character that separates them, so a signature is read back into its parts
(`signatureText_injective`); and the parts decide what the filter does, since numbers and colours
are never written alike. What does not reach the signature, such as the opacity of a colour that
serves as a threshold, does not reach a pixel either.

This is what allows an entry of the cache to be named by signatures. The converse is not true, and
need not be: two filters that do the same may be signed in different ways, as are numbers that clip
to the same effect, and then an entry is made twice. For chains it goes filter by filter
(`signatures_sound`), over every frame and theme, with the fault of the first filter that fails.
-/

set_option autoImplicit false

namespace AltRender

open AltRender.Decimal AltRender.Text

/-! ## Reading a signature -/

/-- A parameter as a signature writes it. -/
def parameterText (p : String × String) : List Char :=
  p.1.toList ++ '=' :: p.2.toList

/-- What a signature writes after the name. -/
def argumentsText (parameters : List (String × String)) : List Char :=
  if parameters.isEmpty then []
    else '(' :: [','].intercalate (parameters.map parameterText) ++ [')']

theorem toList_signatureText (name : String) (parameters : List (String × String)) :
    (signatureText name parameters).toList = name.toList ++ argumentsText parameters := by
  unfold signatureText argumentsText
  cases parameters with
  | nil => simp
  | cons p ps =>
    have hmap : ((p :: ps).map fun q => q.1 ++ "=" ++ q.2).map String.toList =
      (p :: ps).map parameterText := by
      rw [List.map_map]
      refine List.map_congr_left fun q _ => ?_
      simp [parameterText]
    simp only [List.isEmpty_cons, Bool.false_eq_true, if_false, String.toList_append,
      String.toList_intercalate, hmap]
    simp

/-- A character of a name, a key or a value in a signature: none of those that stand between
them. -/
def isPlainChar (c : Char) : Bool :=
  isLetter c || isDigit c || "-.#".toList.contains c

/-- A text without characters that separate. -/
def IsPlain (cs : List Char) : Prop :=
  ∀ c ∈ cs, isPlainChar c = true

theorem IsPlain.not_mem {cs : List Char} (h : IsPlain cs) {c : Char} (hc : isPlainChar c = false) :
    c ∉ cs := by
  intro hmem
  rw [h c hmem] at hc
  exact Bool.noConfusion hc

theorem IsPlain.append {cs ds : List Char} (h : IsPlain cs) (h' : IsPlain ds) :
    IsPlain (cs ++ ds) := by
  intro c hc
  rcases List.mem_append.mp hc with hc | hc
  · exact h c hc
  · exact h' c hc

theorem isPlain_of_all {cs : List Char} (h : cs.all isPlainChar = true) : IsPlain cs :=
  fun c hc => List.all_eq_true.mp h c hc

/-- A parameter that a signature can be read back into. -/
def PlainParameter (p : String × String) : Prop :=
  IsPlain p.1.toList ∧ IsPlain p.2.toList

/-- The parameter that a text writes. -/
def parameterOf (cs : List Char) : String × String :=
  (String.ofList (cs.takeWhile (· != '=')), String.ofList ((cs.dropWhile (· != '=')).drop 1))

theorem parameterOf_parameterText {p : String × String} (h : PlainParameter p) :
    parameterOf (parameterText p) = p := by
  have hkey : ∀ c ∈ p.1.toList, (c != '=') = true := by
    intro c hc
    rw [bne_iff_ne]
    rintro rfl
    exact h.1.not_mem (by decide) hc
  rw [parameterOf, parameterText, List.takeWhile_append_of_pos hkey,
    List.dropWhile_append_of_pos hkey]
  simp

theorem argumentsText_injective {ps qs : List (String × String)} (hps : ∀ p ∈ ps, PlainParameter p)
    (hqs : ∀ q ∈ qs, PlainParameter q) (h : argumentsText ps = argumentsText qs) : ps = qs := by
  have hcomma : ∀ {rs : List (String × String)}, (∀ r ∈ rs, PlainParameter r) →
      ∀ cs ∈ rs.map parameterText, ',' ∉ cs := by
    intro rs hrs cs hcs
    obtain ⟨r, hr, rfl⟩ := List.mem_map.mp hcs
    intro hc
    rcases List.mem_append.mp hc with hc | hc
    · exact (hrs r hr).1.not_mem (by decide) hc
    · rcases List.mem_cons.mp hc with hc | hc
      · exact absurd hc (by decide)
      · exact (hrs r hr).2.not_mem (by decide) hc
  have hback : ∀ {rs : List (String × String)}, (∀ r ∈ rs, PlainParameter r) →
      (rs.map parameterText).map parameterOf = rs := by
    intro rs hrs
    rw [List.map_map]
    exact (List.map_congr_left fun r hr => parameterOf_parameterText (hrs r hr)).trans
      (List.map_id rs)
  unfold argumentsText at h
  cases ps with
  | nil => cases qs with
    | nil => rfl
    | cons q qs => simp at h
  | cons p ps => cases qs with
    | nil => simp at h
    | cons q qs =>
      simp only [List.isEmpty_cons, Bool.false_eq_true, if_false, List.cons_append, List.cons.injEq,
        true_and, List.append_cancel_right_eq] at h
      -- No parameter has a comma in it, so the commas are where one ends and the next begins.
      have hsplit := congrArg (List.splitOn ',') h
      rw [List.splitOn_intercalate ',' (hcomma hps) (by simp),
        List.splitOn_intercalate ',' (hcomma hqs) (by simp)] at hsplit
      rw [← hback hps, ← hback hqs, hsplit]

theorem takeWhile_signatureText {name : String} (hname : IsPlain name.toList)
    (ps : List (String × String)) :
    (signatureText name ps).toList.takeWhile (· != '(') = name.toList := by
  have hbefore : ∀ c ∈ name.toList, (c != '(') = true := by
    intro c hc
    rw [bne_iff_ne]
    rintro rfl
    exact hname.not_mem (by decide) hc
  rw [toList_signatureText, List.takeWhile_append_of_pos hbefore]
  unfold argumentsText
  cases ps <;> simp

/-- **A signature is read back into its name and its parameters.** -/
theorem signatureText_injective {name name' : String} {ps ps' : List (String × String)}
    (hname : IsPlain name.toList) (hname' : IsPlain name'.toList) (hps : ∀ p ∈ ps, PlainParameter p)
    (hps' : ∀ p ∈ ps', PlainParameter p) (h : signatureText name ps = signatureText name' ps') :
    name = name' ∧ ps = ps' := by
  have hnames : name = name' := by
    rw [← String.toList_inj, ← takeWhile_signatureText hname ps, h,
      takeWhile_signatureText hname' ps']
  subst hnames
  have htail := congrArg String.toList h
  rw [toList_signatureText, toList_signatureText, List.append_cancel_left_eq] at htail
  exact ⟨rfl, argumentsText_injective hps hps' htail⟩

/-! ### Its characters -/

theorem mem_of_mem_intercalate {sep c : Char} {css : List (List Char)}
    (h : c ∈ [sep].intercalate css) : c = sep ∨ ∃ cs ∈ css, c ∈ cs := by
  induction css with
  | nil => exact absurd h List.not_mem_nil
  | cons cs rest ih =>
    by_cases hrest : rest = []
    · subst hrest
      rw [List.intercalate_singleton] at h
      exact .inr ⟨cs, List.mem_cons_self, h⟩
    · rw [List.intercalate_cons_of_ne_nil hrest, List.append_assoc, List.mem_append,
        List.mem_append] at h
      rcases h with h | h | h
      · exact .inr ⟨cs, List.mem_cons_self, h⟩
      · exact .inl (List.mem_singleton.mp h)
      · rcases ih h with h | ⟨ds, hds, hc⟩
        · exact .inl h
        · exact .inr ⟨ds, List.mem_cons_of_mem cs hds, hc⟩

/-- A character of a signature is plain or stands between two parts. -/
theorem mem_signatureText {name : String} {ps : List (String × String)}
    (hname : IsPlain name.toList) (hps : ∀ p ∈ ps, PlainParameter p) {c : Char}
    (h : c ∈ (signatureText name ps).toList) : isPlainChar c = true ∨ c ∈ "(=,)".toList := by
  rw [toList_signatureText, List.mem_append] at h
  rcases h with h | h
  · exact .inl (hname c h)
  · unfold argumentsText at h
    split at h
    · exact absurd h List.not_mem_nil
    · rw [List.cons_append, List.mem_cons, List.mem_append, List.mem_singleton] at h
      rcases h with rfl | h | rfl
      · exact .inr (by decide)
      · rcases mem_of_mem_intercalate h with rfl | ⟨cs, hcs, hc⟩
        · exact .inr (by decide)
        · obtain ⟨p, hp, rfl⟩ := List.mem_map.mp hcs
          rcases List.mem_append.mp hc with hc | hc
          · exact .inl ((hps p hp).1 c hc)
          · rcases List.mem_cons.mp hc with rfl | hc
            · exact .inr (by decide)
            · exact .inl ((hps p hp).2 c hc)
      · exact .inr (by decide)

/-! ## Colours and thresholds -/

theorem hexDigit_injective :
    ∀ capital, ∀ m < 16, ∀ n < 16, hexDigit capital m = hexDigit capital n → m = n := by
  decide

theorem hexByte_injective {capital : Bool} {a b : UInt8}
    (h : hexByte capital a = hexByte capital b) :
    a = b := by
  have ha := a.toNat_lt
  have hb := b.toNat_lt
  simp only [hexByte, List.cons.injEq, and_true] at h
  have hhigh := hexDigit_injective capital _ (by omega) _ (by omega) h.1
  have hlow := hexDigit_injective capital _ (by omega) _ (by omega) h.2
  exact UInt8.toNat_inj.mp (by omega)

theorem Colour.toList_toHex_solid (r g b : UInt8) :
    (Colour.solid r g b).toHex.toList =
      '#' :: (hexByte true r ++ (hexByte true g ++ hexByte true b)) := by
  simp [Colour.toHex, Colour.solid]

theorem Colour.toHex_solid_injective {r g b r' g' b' : UInt8}
    (h : (Colour.solid r g b).toHex = (Colour.solid r' g' b').toHex) :
    r = r' ∧ g = g' ∧ b = b' := by
  have hlist := congrArg String.toList h
  rw [toList_toHex_solid, toList_toHex_solid] at hlist
  obtain ⟨hr, hrest⟩ := List.append_inj (List.cons.inj hlist).2 rfl
  obtain ⟨hg, hb⟩ := List.append_inj hrest rfl
  exact ⟨hexByte_injective hr, hexByte_injective hg, hexByte_injective hb⟩

/-- A colour starts with a character that no number has. -/
theorem Colour.toHex_ne_plainText (c : Colour) (x : Float) : c.toHex ≠ plainText x := by
  intro h
  have hmem : '#' ∈ (plainText x).toList := by
    rw [← h]
    simp [Colour.toHex]
  exact absurd (isNumberChar_of_mem_plainText hmem) (by decide)

theorem Cutout.Threshold.limits_eq_of_text {t t' : Cutout.Threshold} (h : t.text = t'.text) :
    t.limits = t'.limits := by
  cases t with
  | uniform limit => cases t' with
    | uniform limit' => rw [plainText_injective h]
    | colour c' => exact absurd h.symm (Colour.toHex_ne_plainText _ limit)
  | colour c => cases t' with
    | uniform limit' => exact absurd h (Colour.toHex_ne_plainText _ limit')
    | colour c' =>
      obtain ⟨hr, hg, hb⟩ := Colour.toHex_solid_injective h
      simp only [limits, hr, hg, hb]

theorem Cutout.cutOut_congr {t t' : Cutout.Threshold} (h : t.limits = t'.limits)
    (side : Cutout.Side) : cutOut t side = cutOut t' side := by
  have hremoves : removes t side = removes t' side := by
    funext c
    simp only [removes, h]
  have hcut : cutPixel t side = cutPixel t' side := by
    funext p
    simp only [cutPixel, hremoves]
  funext p
  simp only [cutOut, hcut]

theorem Cutout.Side.word_injective : Function.Injective Cutout.Side.word := by
  intro s s' h
  cases s <;> cases s' <;> first | rfl | exact absurd h (by decide)

/-! ## The texts in a signature are plain -/

theorem isPlain_plainText (x : Float) : IsPlain (plainText x).toList := by
  intro c hc
  have hnumber := isNumberChar_of_mem_plainText hc
  rw [isNumberChar, Bool.or_eq_true] at hnumber
  rcases hnumber with hdigit | hother
  · rw [isPlainChar, hdigit, Bool.or_true, Bool.true_or]
  · exact List.all_eq_true.mp (show "-.NaNinf".toList.all isPlainChar = true by decide) c
      (List.contains_iff_mem.mp hother)

theorem isPlain_hexByte (b : UInt8) : IsPlain (hexByte true b) := by
  have hdigit : ∀ n < 16, isPlainChar (hexDigit true n) = true := by decide
  have hb := b.toNat_lt
  intro c hc
  simp only [hexByte, List.mem_cons, List.not_mem_nil, or_false] at hc
  rcases hc with rfl | rfl
  · exact hdigit _ (by omega)
  · exact hdigit _ (by omega)

theorem Cutout.Threshold.isPlain_text (t : Cutout.Threshold) : IsPlain t.text.toList := by
  cases t with
  | uniform limit => exact isPlain_plainText limit
  | colour c =>
    have hhex :=
      ((isPlain_hexByte c.red).append ((isPlain_hexByte c.green).append (isPlain_hexByte c.blue)))
    rw [text, Colour.toList_toHex_solid]
    exact (isPlain_of_all (show ['#'].all isPlainChar = true by decide)).append hhex

theorem Cutout.Side.isPlain_word (s : Cutout.Side) : IsPlain s.word.toList := by
  cases s with
  | below => exact isPlain_of_all (by decide)
  | above => exact isPlain_of_all (by decide)

theorem Effect.plain_parameters (e : Effect) : ∀ p ∈ e.parameters, PlainParameter p := by
  have hamount : ∀ x : Float, ∀ p ∈ [("amount", plainText x)], PlainParameter p := by
    intro x p hp
    rw [List.mem_singleton.mp hp]
    exact ⟨isPlain_of_all (show "amount".toList.all isPlainChar = true by decide),
      isPlain_plainText x⟩
  cases e with
  | invert => exact fun p hp => absurd hp List.not_mem_nil
  | contrast amount => exact hamount amount
  | boostLightness amount => exact hamount amount
  | sharpness amount => exact hamount amount
  | transparent threshold side =>
    intro p hp
    simp only [parameters, List.mem_cons, List.not_mem_nil, or_false] at hp
    rcases hp with rfl | rfl
    · exact ⟨isPlain_of_all (show "threshold".toList.all isPlainChar = true by decide),
        threshold.isPlain_text⟩
    · exact ⟨isPlain_of_all (show "remove".toList.all isPlainChar = true by decide),
        side.isPlain_word⟩

/-! ## The built-in filters -/

/-- **The name and the texts of the parameters decide what an effect does.** -/
theorem Effect.applyTo_congr {e e' : Effect} (hname : e.name = e'.name)
    (hps : e.parameters = e'.parameters) : e.applyTo = e'.applyTo := by
  have hamount : ∀ {x y : Float}, [("amount", plainText x)] = [("amount", plainText y)] →
    x = y := by
    intro x y h
    simp only [List.cons.injEq, Prod.mk.injEq, true_and, and_true] at h
    exact plainText_injective h
  -- The name tells the effect, and the texts of its parameters tell the numbers, as a number has
  -- only one plain text.
  cases e with
  | invert => cases e' with
    | invert => rfl
    | _ => simp [name] at hname
  | contrast amount => cases e' with
    | contrast amount' => rw [hamount hps]
    | _ => simp [name] at hname
  | boostLightness amount => cases e' with
    | boostLightness amount' => rw [hamount hps]
    | _ => simp [name] at hname
  | sharpness amount => cases e' with
    | sharpness amount' => rw [hamount hps]
    | _ => simp [name] at hname
  | transparent threshold side => cases e' with
    | transparent threshold' side' =>
      simp only [parameters, List.cons.injEq, Prod.mk.injEq, true_and, and_true] at hps
      have hcut := Cutout.cutOut_congr (Cutout.Threshold.limits_eq_of_text hps.1) side
      have hside := Cutout.Side.word_injective hps.2
      subst hside
      funext p
      simp only [applyTo, hcut]
    | _ => simp [name] at hname

/-- The parameters of a built-in filter: those of its effect, and none for the adaptation to a
theme. -/
def Builtin.parameters : Builtin → List (String × String)
  | .effect e => e.parameters
  | .darkmode => []

theorem Builtin.signature_eq (b : Builtin) : b.signature = signatureText b.name b.parameters := by
  cases b <;> rfl

theorem Builtin.name_mem_makers (b : Builtin) : b.name ∈ makers.map Prod.fst := by
  cases b with
  | effect e => cases e <;> simp [makers, name, Effect.name]
  | darkmode => simp [makers, name]

theorem Builtin.isPlain_name (b : Builtin) : IsPlain b.name.toList := by
  have hall : ∀ name ∈ makers.map Prod.fst, name.toList.all isPlainChar = true := by decide
  exact isPlain_of_all (hall _ b.name_mem_makers)

theorem Builtin.plain_parameters (b : Builtin) : ∀ p ∈ b.parameters, PlainParameter p := by
  cases b with
  | effect e => exact e.plain_parameters
  | darkmode => exact fun p hp => absurd hp List.not_mem_nil

theorem Effect.name_ne_darkmode (e : Effect) : e.name ≠ "darkmode" := by
  cases e <;> simp [name]

/-- **Built-in filters with one signature do the same.** -/
theorem Builtin.apply_eq_of_signature {b b' : Builtin} (h : b.signature = b'.signature) :
    b.apply = b'.apply := by
  rw [signature_eq, signature_eq] at h
  obtain ⟨hname, hps⟩ :=
    signatureText_injective b.isPlain_name b'.isPlain_name b.plain_parameters b'.plain_parameters h
  cases b with
  | effect e => cases b' with
    | effect e' =>
      have happly := Effect.applyTo_congr hname hps
      funext f theme
      simp only [apply, Effect.apply, happly]
    | darkmode => exact absurd hname e.name_ne_darkmode
  | darkmode => cases b' with
    | effect e' => exact absurd hname.symm e'.name_ne_darkmode
    | darkmode => rfl

/-! ## What the built-in registry makes -/

namespace Registry

theorem makers_builtin :
    builtin.makers.entries = Builtin.makers.map fun m => (m.1, builtinMaker m.2) :=
  rfl

theorem exists_of_create_builtin {name : String} {ps : Parameters} {f : Filter}
    (h : builtin.create name ps = some f) : ∃ b : Builtin, f = b.toFilter := by
  obtain ⟨maker, hmaker, rfl⟩ := Option.map_eq_some_iff.mp h
  have hmem := Keyed.mem_of_get? hmaker
  rw [makers_builtin] at hmem
  obtain ⟨m, hm, heq⟩ := List.mem_map.mp hmem
  rw [← (Prod.mk.inj heq).2]
  exact ⟨m.2 ps, rfl⟩

theorem apply_eq_of_create {n m : String} {p q : Parameters} {f g : Filter}
    (hf : builtin.create n p = some f) (hg : builtin.create m q = some g)
    (h : f.signature = g.signature) : f.apply = g.apply := by
  obtain ⟨b, rfl⟩ := exists_of_create_builtin hf
  obtain ⟨b', rfl⟩ := exists_of_create_builtin hg
  exact Builtin.apply_eq_of_signature h

end Registry

namespace Chain

/-- Whether all filters of a chain come from the built-in registry, under whatever names and with
whatever arguments. -/
def IsBuiltin (c : Chain) : Prop :=
  ∀ f ∈ c, ∃ name ps, Registry.builtin.create name ps = some f

theorem isBuiltin_resolve (specs : List Spec) : (Registry.builtin.resolve specs).IsBuiltin := by
  intro f hf
  obtain ⟨s, -, hs⟩ := List.mem_filterMap.mp hf
  exact ⟨s.name, s.parameters, hs⟩

theorem isBuiltin_chainOf (text : String) : (Registry.builtin.chainOf text).IsBuiltin :=
  isBuiltin_resolve (Directive.specs text)

theorem isBuiltin_cons {f : Filter} {c : Chain} (h : IsBuiltin (f :: c)) :
    (∃ name ps, Registry.builtin.create name ps = some f) ∧ c.IsBuiltin :=
  ⟨h f List.mem_cons_self, fun g hg => h g (List.mem_cons_of_mem f hg)⟩

theorem exists_of_mem_signatures {c : Chain} (h : c.IsBuiltin) {x : String}
    (hx : x ∈ c.signatures) :
    ∃ b : Builtin, x = b.signature := by
  obtain ⟨f, hf, rfl⟩ := List.mem_map.mp hx
  obtain ⟨name, ps, hcreate⟩ := h f hf
  obtain ⟨b, rfl⟩ := Registry.exists_of_create_builtin hcreate
  exact ⟨b, rfl⟩

/-- **A signature is written in plain characters and the marks of its form,** whatever the arguments
were. -/
theorem plain_or_mark_of_mem_signatures {c : Chain} (h : c.IsBuiltin) {x : String}
    (hx : x ∈ c.signatures) {d : Char} (hd : d ∈ x.toList) :
    isPlainChar d = true ∨ d ∈ "(=,)".toList := by
  obtain ⟨b, rfl⟩ := exists_of_mem_signatures h hx
  rw [b.signature_eq] at hd
  exact mem_signatureText b.isPlain_name b.plain_parameters hd

theorem apply_eq_of_signatures {c d : Chain} (hc : c.IsBuiltin) (hd : d.IsBuiltin)
    (h : c.signatures = d.signatures) : c.apply = d.apply := by
  funext frame theme
  induction c generalizing d frame with
  | nil =>
    rw [List.map_eq_nil_iff.mp h.symm]
  | cons f c ih => cases d with
    | nil => exact absurd h (by simp [signatures])
    | cons g d =>
      obtain ⟨hsignature, hrest⟩ := List.cons.inj h
      obtain ⟨⟨n, p, hf⟩, hc⟩ := isBuiltin_cons hc
      obtain ⟨⟨m, q, hg⟩, hd⟩ := isBuiltin_cons hd
      rw [apply_cons, apply_cons, Registry.apply_eq_of_create hf hg hsignature]
      congr 1
      funext next
      exact ih hc hd hrest next

end Chain

/-- **Signatures are sound.** Filters of the built-in registry with the same signature take every
frame to the same frame or to the same fault under every theme, and so do chains of such filters
with the same signatures. -/
theorem signatures_sound :
    (∀ (n m : String) (p q : Parameters) (f g : Filter), Registry.builtin.create n p = some f →
      Registry.builtin.create m q = some g → f.signature = g.signature →
      ∀ (frame : Frame) (theme : Option Theme), f.apply frame theme = g.apply frame theme) ∧
    ∀ c d : Chain, c.IsBuiltin → d.IsBuiltin → c.signatures = d.signatures →
      ∀ (frame : Frame) (theme : Option Theme), c.apply frame theme = d.apply frame theme := by
  refine ⟨?_, ?_⟩
  · intro n m p q f g hf hg h frame theme
    rw [Registry.apply_eq_of_create hf hg h]
  · intro c d hc hd h frame theme
    rw [Chain.apply_eq_of_signatures hc hd h]

/-- The filter that cuts out what is darker than a colour. -/
def transparentBelow (colour : String) : Filter :=
  (Builtin.effect (Effect.transparentOf (Keyed.empty.insert "threshold" (.text colour)))).toFilter

/-- Two colours that differ in their opacity alone: one signature, one filter. -/
theorem signatures_sound_opacity :
    (transparentBelow "#f00").signature = "transparent(threshold=#FF0000,remove=below)" ∧
      (transparentBelow "#f00").apply = (transparentBelow " FF000080").apply ∧
      Chain.apply [transparentBelow "#f00"] = Chain.apply [transparentBelow " FF000080"] := by
  have hmade : ∀ colour,
    Registry.builtin.create "transparent" (Keyed.empty.insert "threshold" (.text colour)) =
      some (transparentBelow colour) := fun _ => rfl
  have hsignature : (transparentBelow "#f00").signature =
    (transparentBelow " FF000080").signature := by decide
  have hchain : ∀ colour, Chain.IsBuiltin [transparentBelow colour] := by
    intro colour f hf
    rw [List.mem_singleton.mp hf]
    exact ⟨_, _, hmade colour⟩
  refine ⟨by decide, ?_, ?_⟩
  · funext frame theme
    exact signatures_sound.1 _ _ _ _ _ _ (hmade _) (hmade _) hsignature frame theme
  · funext frame theme
    exact signatures_sound.2 _ _ (hchain _) (hchain _)
      (congrArg (fun s => [s]) hsignature) frame theme

end AltRender

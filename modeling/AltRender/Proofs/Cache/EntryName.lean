import AltRender.Cache.Name
import AltRender.Proofs.Filter.Signature
import AltRender.Text.Occurrence

/-!
# `Proofs/Cache/EntryName` — what the name of an entry says

The parts of an entry's name are joined with underscores and nothing in them is escaped: the base
name may hold underscores, digits that look like a fingerprint, the word for a theme. Yet the name
says what its parts are. Split at the underscores, it ends with the theme's tag, if there is one,
before that the signatures, and before them the fingerprint; and no signature holds an underscore,
looks like a fingerprint or is a tag. So the fingerprint is the last piece that looks like one, and
everything before it is the base name (`parts_of_entryName`).

Filters that are not built in may sign as they like. A name then still says what the fingerprint is,
unless one of the sources in question is mentioned in a signature (`fingerprint_of_entryName`).
-/

set_option autoImplicit false

namespace AltRender.Cache

open AltRender.Text

/-! ## The shape of a fingerprint -/

/-- A hexadecimal digit as a fingerprint has them. -/
def isSmallHex (c : Char) : Bool :=
  isDigit c || ('a' ≤ c && c ≤ 'f')

/-- Whether a text has the shape of a fingerprint. -/
def looksLikeFingerprint (cs : List Char) : Bool :=
  cs.length == fingerprintLength && cs.all isSmallHex

theorem isNameChar_of_isSmallHex {c : Char} (h : isSmallHex c = true) : isNameChar c = true := by
  simp only [isSmallHex, isNameChar, isLetter, Bool.or_eq_true, Bool.and_eq_true, decide_eq_true_eq]
    at h ⊢
  rcases h with hdigit | ⟨hlow, hhigh⟩
  · exact .inl (.inl (.inr hdigit))
  · exact .inl (.inl (.inl (.inl ⟨hlow, Char.le_trans hhigh (by decide)⟩)))

theorem isSmallHex_of_mem_hexByte {b : UInt8} {c : Char} (h : c ∈ hexByte false b) :
    isSmallHex c = true := by
  have hdigit : ∀ n < 16, isSmallHex (hexDigit false n) = true := by decide
  have hb := b.toNat_lt
  simp only [hexByte, List.mem_cons, List.not_mem_nil, or_false] at h
  rcases h with rfl | rfl
  · exact hdigit _ (by omega)
  · exact hdigit _ (by omega)

theorem isSmallHex_of_mem_fingerprint {s : Source} {c : Char} (h : c ∈ (fingerprint s).toList) :
    isSmallHex c = true := by
  rw [fingerprint, String.toList_ofList] at h
  obtain ⟨b, -, hb⟩ := List.mem_flatMap.mp (List.mem_of_mem_take h)
  exact isSmallHex_of_mem_hexByte hb

theorem looksLikeFingerprint_fingerprint (s : Source) :
    looksLikeFingerprint (fingerprint s).toList = true := by
  rw [looksLikeFingerprint, Bool.and_eq_true, beq_iff_eq, List.all_eq_true]
  exact ⟨length_fingerprint s, fun c hc => isSmallHex_of_mem_fingerprint hc⟩

theorem not_mem_of_isSmallHex {cs : List Char} (h : ∀ c ∈ cs, isSmallHex c = true) : '_' ∉ cs := by
  intro hmem
  exact absurd (h _ hmem) (by decide)

/-! ## Names as pieces -/

/-- A signature that cannot be taken for another part of a name. -/
structure Unmistakable (signature : String) : Prop where
  noSeparator : '_' ∉ signature.toList
  noFingerprint : looksLikeFingerprint signature.toList = false
  noTag : ∀ t : Theme, signature ≠ t.tag

/-- The parts after the fingerprint. -/
def tailParts (signatures : List String) (theme : Option Theme) : List String :=
  signatures ++ theme.toList.map Theme.tag

theorem toList_entryName (s : Source) (signatures : List String) (theme : Option Theme) :
    (entryName s signatures theme).toList =
      (sanitize s.baseName).toList ++ '_' ::
        ['_'].intercalate
          ((fingerprint s).toList :: (tailParts signatures theme).map String.toList) ++
        extension.toList := by
  have hparts : nameParts s signatures theme =
    sanitize s.baseName :: fingerprint s :: tailParts signatures theme := by
    simp [nameParts, tailParts]
  rw [entryName, hparts, String.intercalate_cons_cons, String.toList_append, String.toList_append,
    String.toList_append, String.toList_intercalate, List.map_cons]
  simp [separator]

theorem prefix_intercalate (sep part : List Char) (parts : List (List Char)) :
    part <+: sep.intercalate (part :: parts) := by
  cases parts with
  | nil => rw [List.intercalate_singleton]
  | cons next rest =>
    rw [List.intercalate_cons_cons, List.append_assoc]
    exact List.prefix_append _ _

/-- The fingerprint of a source is in the names of all its entries. -/
theorem occursIn_fingerprint (s : Source) (signatures : List String) (theme : Option Theme) :
    occursIn (fingerprint s).toList (entryName s signatures theme).toList = true := by
  obtain ⟨rest, hrest⟩ := prefix_intercalate ['_'] (fingerprint s).toList
    ((tailParts signatures theme).map String.toList)
  rw [occursIn_iff, toList_entryName, ← hrest]
  exact ⟨(sanitize s.baseName).toList ++ ['_'], rest ++ extension.toList, by simp⟩

/-- The pieces of several texts put together with a separator are the pieces of each. -/
theorem splitOn_intercalate_cons (part : List Char) (parts : List (List Char)) :
    (['_'].intercalate (part :: parts)).splitOn '_' = (part :: parts).flatMap (·.splitOn '_') := by
  induction parts generalizing part with
  | nil => rw [List.intercalate_singleton, List.flatMap_singleton]
  | cons next rest ih =>
    rw [List.intercalate_cons_cons, List.append_assoc, List.singleton_append,
      List.splitOn_append_cons_self, ih, ← List.flatMap_cons]

/-- **The pieces of a name between underscores:** those of the base name, the fingerprint, and those
of each part behind it. -/
theorem splitOn_entryName (s : Source) (signatures : List String) (theme : Option Theme)
    {text : List Char} (htext : (entryName s signatures theme).toList = text ++ extension.toList) :
    text.splitOn '_' = (sanitize s.baseName).toList.splitOn '_' ++
      (fingerprint s).toList :: (tailParts signatures theme).flatMap fun x =>
        x.toList.splitOn '_' := by
  have hfingerprint : (fingerprint s).toList.splitOn '_' = [(fingerprint s).toList] :=
    List.splitOn_eq_singleton (not_mem_of_isSmallHex fun c => isSmallHex_of_mem_fingerprint)
  rw [toList_entryName, List.append_cancel_right_eq] at htext
  rw [← htext, List.splitOn_append_cons_self, splitOn_intercalate_cons, List.flatMap_cons,
    hfingerprint, List.singleton_append, List.flatMap_map]

/-- No tag holds an underscore or looks like a fingerprint. -/
theorem plain_tag (t : Theme) : '_' ∉ t.tag.toList ∧ looksLikeFingerprint t.tag.toList = false := by
  cases t <;> decide

theorem noSeparator_tailParts {signatures : List String} (h : ∀ x ∈ signatures, Unmistakable x)
    (theme : Option Theme) : ∀ x ∈ tailParts signatures theme, '_' ∉ x.toList := by
  intro x hx
  rcases List.mem_append.mp hx with hx | hx
  · exact (h x hx).noSeparator
  · obtain ⟨t, -, rfl⟩ := List.mem_map.mp hx
    exact (plain_tag t).1

theorem noFingerprint_tailParts {signatures : List String} (h : ∀ x ∈ signatures, Unmistakable x)
    (theme : Option Theme) :
    ∀ x ∈ tailParts signatures theme, looksLikeFingerprint x.toList = false := by
  intro x hx
  rcases List.mem_append.mp hx with hx | hx
  · exact (h x hx).noFingerprint
  · obtain ⟨t, -, rfl⟩ := List.mem_map.mp hx
    exact (plain_tag t).2

/-- Parts without underscores are a piece each. -/
theorem flatMap_splitOn_tailParts {signatures : List String} (h : ∀ x ∈ signatures, Unmistakable x)
    (theme : Option Theme) :
    (tailParts signatures theme).flatMap (fun x => x.toList.splitOn '_') =
      (tailParts signatures theme).map String.toList := by
  rw [← List.flatMap_pure_eq_map]
  exact List.flatMap_congr fun x hx =>
    List.splitOn_eq_singleton (noSeparator_tailParts h theme x hx)

/-! ## Reading the pieces -/

/-- What stands before the last marked item, that item, and what stands after it. -/
theorem split_at_last {α : Type} {marked : α → Bool} {as as' bs bs' : List α} {x x' : α}
    (hx : marked x = true) (hx' : marked x' = true) (hbs : ∀ b ∈ bs, marked b = false)
    (hbs' : ∀ b ∈ bs', marked b = false) (h : as ++ x :: bs = as' ++ x' :: bs') :
    as = as' ∧ x = x' ∧ bs = bs' := by
  rcases List.append_eq_append_iff.mp h with ⟨cs, hcs, hrest⟩ | ⟨cs, hcs, hrest⟩
  · cases cs with
    | nil =>
      rw [List.nil_append, List.cons.injEq] at hrest
      rw [hcs, List.append_nil]
      exact ⟨rfl, hrest⟩
    | cons c cs =>
      -- One marked item would stand behind the other, where there is none.
      have hmem : x' ∈ bs := by
        rw [(List.cons.inj hrest).2]
        simp
      exact absurd hx' (by rw [hbs x' hmem]; decide)
  · cases cs with
    | nil =>
      rw [List.nil_append, List.cons.injEq] at hrest
      rw [hcs, List.append_nil]
      exact ⟨rfl, hrest.1.symm, hrest.2.symm⟩
    | cons c cs =>
      have hmem : x ∈ bs' := by
        rw [(List.cons.inj hrest).2]
        simp
      exact absurd hx (by rw [hbs' x hmem]; decide)

theorem tag_injective : Function.Injective Theme.tag := by
  intro t t' h
  cases t <;> cases t' <;> first | rfl | exact absurd h (by decide)

/-- The tag at the end is told from the signatures before it. -/
theorem tailParts_injective {signatures signatures' : List String} {theme theme' : Option Theme}
    (h : ∀ x ∈ signatures, Unmistakable x) (h' : ∀ x ∈ signatures', Unmistakable x)
    (heq : tailParts signatures theme = tailParts signatures' theme') :
    signatures = signatures' ∧ theme = theme' := by
  let isTag : String → Bool := fun x => x == Theme.dark.tag || x == Theme.light.tag
  have hsignature : ∀ {xs : List String}, (∀ x ∈ xs, Unmistakable x) → xs.filter isTag = [] := by
    intro xs hxs
    rw [List.filter_eq_nil_iff]
    intro x hx
    simp only [isTag, Bool.or_eq_true, beq_iff_eq, not_or]
    exact ⟨(hxs x hx).noTag .dark, (hxs x hx).noTag .light⟩
  have htag :
    ∀ t : Option Theme, (t.toList.map Theme.tag).filter isTag = t.toList.map Theme.tag := by
    intro t
    rw [List.filter_eq_self]
    intro x hx
    obtain ⟨t, -, rfl⟩ := List.mem_map.mp hx
    cases t <;> decide
  -- The test for a tag picks out exactly the last part, so equal lists have equal tags, and then
  -- equal rests.
  have htags := congrArg (List.filter isTag) heq
  simp only [tailParts, List.filter_append, hsignature h, hsignature h', htag, List.nil_append]
    at htags
  rw [tailParts, tailParts, htags, List.append_cancel_right_eq] at heq
  refine ⟨heq, ?_⟩
  have hlist := List.map_injective_iff.mpr tag_injective htags
  cases theme with
  | none => cases theme' with
    | none => rfl
    | some t' => exact absurd hlist (by simp)
  | some t => cases theme' with
    | none => exact absurd hlist (by simp)
    | some t' => rw [List.singleton_inj.mp hlist]

/-- **The name says what its parts are,** if no signature can be taken for another part. -/
theorem parts_of_entryName {s s' : Source} {signatures signatures' : List String}
    {theme theme' : Option Theme} (h : ∀ x ∈ signatures, Unmistakable x)
    (h' : ∀ x ∈ signatures', Unmistakable x)
    (heq : entryName s signatures theme = entryName s' signatures' theme') :
    fingerprint s = fingerprint s' ∧ sanitize s.baseName = sanitize s'.baseName ∧
    signatures = signatures' ∧
      theme = theme' := by
  have htext := toList_entryName s signatures theme
  have hpieces := (splitOn_entryName s signatures theme htext).symm.trans
    (splitOn_entryName s' signatures' theme' (by rw [← heq, htext]))
  rw [flatMap_splitOn_tailParts h, flatMap_splitOn_tailParts h'] at hpieces
  have hplain : ∀ {xs : List String} {t : Option Theme}, (∀ x ∈ xs, Unmistakable x) →
      ∀ cs ∈ (tailParts xs t).map String.toList, looksLikeFingerprint cs = false := by
    intro xs t hxs cs hcs
    obtain ⟨x, hx, rfl⟩ := List.mem_map.mp hcs
    exact noFingerprint_tailParts hxs t x hx
  obtain ⟨hbase, hfingerprint, htail⟩ := split_at_last (looksLikeFingerprint_fingerprint s)
    (looksLikeFingerprint_fingerprint s') (hplain h) (hplain h') hpieces
  have hjoined := congrArg (List.intercalate ['_']) hbase
  rw [List.intercalate_splitOn, List.intercalate_splitOn] at hjoined
  have hparts := List.map_injective_iff.mpr (fun _ _ => String.toList_inj.mp) htail
  exact ⟨String.toList_inj.mp hfingerprint, String.toList_inj.mp hjoined,
    tailParts_injective h h' hparts⟩

/-! ## Signatures that mention a source -/

/-- **A source is mentioned in some signatures** if its fingerprint is a whole piece of one of them
between underscores. -/
def Mentions (signatures : List String) (s : Source) : Prop :=
  ∃ x ∈ signatures, (fingerprint s).toList ∈ x.toList.splitOn '_'

/-- An unmistakable signature mentions no source. -/
theorem not_mentions_of_unmistakable {signatures : List String}
    (h : ∀ x ∈ signatures, Unmistakable x) (s : Source) : ¬ Mentions signatures s := by
  rintro ⟨x, hx, hpiece⟩
  rw [List.splitOn_eq_singleton (h x hx).noSeparator, List.mem_singleton] at hpiece
  have hlooks := looksLikeFingerprint_fingerprint s
  rw [hpiece, (h x hx).noFingerprint] at hlooks
  exact absurd hlooks Bool.false_ne_true

/-- A fingerprint behind that of the name is one that a signature mentions; no tag looks like
one. -/
theorem mentions_of_mem_pieces {s : Source} {signatures : List String} {theme : Option Theme}
    (h : (fingerprint s).toList ∈ (tailParts signatures theme).flatMap fun x =>
      x.toList.splitOn '_') : Mentions signatures s := by
  obtain ⟨x, hx, hpiece⟩ := List.mem_flatMap.mp h
  rcases List.mem_append.mp hx with hx | hx
  · exact ⟨x, hx, hpiece⟩
  · obtain ⟨t, -, rfl⟩ := List.mem_map.mp hx
    rw [List.splitOn_eq_singleton (plain_tag t).1, List.mem_singleton] at hpiece
    have hlooks := looksLikeFingerprint_fingerprint s
    rw [hpiece, (plain_tag t).2] at hlooks
    exact absurd hlooks Bool.false_ne_true

/-- Two lists that are one have their marked items in one place, or one of the items stands behind
the other. -/
theorem eq_or_mem_of_append {α : Type} {as as' bs bs' : List α} {x x' : α}
    (h : as ++ x :: bs = as' ++ x' :: bs') : x = x' ∨ x' ∈ bs ∨ x ∈ bs' := by
  rcases List.append_eq_append_iff.mp h with ⟨cs, -, hrest⟩ | ⟨cs, -, hrest⟩
  · cases cs with
    | nil => exact .inl (List.cons.inj hrest).1
    | cons c cs =>
      rw [(List.cons.inj hrest).2]
      exact .inr (.inl (List.mem_append_right _ List.mem_cons_self))
  · cases cs with
    | nil => exact .inl (List.cons.inj hrest).1.symm
    | cons c cs =>
      rw [(List.cons.inj hrest).2]
      exact .inr (.inr (List.mem_append_right _ List.mem_cons_self))

/-- **The name says what the fingerprint is,** whatever the filters sign, if neither of two sources
is mentioned in the signatures of the other. -/
theorem fingerprint_of_entryName {s s' : Source} {signatures signatures' : List String}
    {theme theme' : Option Theme} (h : ¬ Mentions signatures s') (h' : ¬ Mentions signatures' s)
    (heq : entryName s signatures theme = entryName s' signatures' theme') :
    fingerprint s = fingerprint s' := by
  have htext := toList_entryName s signatures theme
  have hpieces := (splitOn_entryName s signatures theme htext).symm.trans
    (splitOn_entryName s' signatures' theme' (by rw [← heq, htext]))
  rcases eq_or_mem_of_append hpieces with hsame | hmem | hmem
  · exact String.toList_inj.mp hsame
  · exact absurd (mentions_of_mem_pieces hmem) h
  · exact absurd (mentions_of_mem_pieces hmem) h'

/-! ## Signatures of built-in filters -/

theorem name_prefix_signature (b : Builtin) : b.name.toList <+: b.signature.toList := by
  rw [b.signature_eq, toList_signatureText]
  exact List.prefix_append _ _

/-- No signature holds an underscore, looks like a fingerprint or is a tag: the last two because of
its name. -/
theorem unmistakable_signature (b : Builtin) : Unmistakable b.signature := by
  have hlong : ∀ name ∈ Builtin.makers.map Prod.fst, name.toList.all isSmallHex = false := by decide
  have htag : ∀ name ∈ Builtin.makers.map Prod.fst, ∀ tag ∈ ["dark", "light"],
    ¬ name.toList <+: tag.toList := by
    decide
  refine ⟨?_, ?_, ?_⟩
  · intro hmem
    rw [b.signature_eq] at hmem
    rcases mem_signatureText b.isPlain_name b.plain_parameters hmem with h | h
    · exact absurd h (by decide)
    · exact absurd h (by decide)
  · have hname := hlong _ b.name_mem_makers
    rw [List.all_eq_false] at hname
    obtain ⟨c, hc, hhex⟩ := hname
    rw [looksLikeFingerprint, Bool.and_eq_false_iff, List.all_eq_false]
    exact .inr ⟨c, (name_prefix_signature b).subset hc, hhex⟩
  · intro t h
    have hprefix := name_prefix_signature b
    rw [h] at hprefix
    exact htag _ b.name_mem_makers t.tag (by cases t <;> decide) hprefix

theorem unmistakable_signatures {c : Chain} (h : c.IsBuiltin) :
    ∀ x ∈ c.signatures, Unmistakable x := by
  intro x hx
  obtain ⟨b, rfl⟩ := Chain.exists_of_mem_signatures h hx
  exact unmistakable_signature b

/-- **Names do not collide.** Two entries of chains of built-in filters have one name only if
fingerprints, sanitized base names, signatures and themes are the same. -/
theorem entryName_distinct {s s' : Source} {c c' : Chain} {theme theme' : Option Theme}
    (h : c.IsBuiltin) (h' : c'.IsBuiltin)
    (heq : entryName s c.signatures theme = entryName s' c'.signatures theme') :
    fingerprint s = fingerprint s' ∧ sanitize s.baseName = sanitize s'.baseName ∧
    c.signatures = c'.signatures ∧
      theme = theme' :=
  parts_of_entryName (unmistakable_signatures h) (unmistakable_signatures h') heq

/-- One name for two base names that are sanitized alike and two thresholds that are signed
alike. -/
theorem entryName_distinct_opacity :
    let s : Source := ⟨"notes/a b.png", "a b.png", "a b", 1⟩
    let s' : Source := ⟨"notes/a b.png", "a_b.png", "a_b", 2⟩
    let c : Chain := [transparentBelow "#f00"]
    let c' : Chain := [transparentBelow " FF000080"]
    entryName s c.signatures (some .dark) = entryName s' c'.signatures (some .dark) ∧
      fingerprint s = fingerprint s' ∧ sanitize s.baseName = sanitize s'.baseName ∧
      c.signatures = c'.signatures ∧
      some Theme.dark = some Theme.dark := by
  intro s s' c c'
  have hbuiltin : ∀ colour, Chain.IsBuiltin [transparentBelow colour] := by
    intro colour f hf
    rw [List.mem_singleton.mp hf]
    exact ⟨"transparent", Keyed.empty.insert "threshold" (.text colour), rfl⟩
  have hbase : sanitize s.baseName = sanitize s'.baseName := by decide
  have hsignatures : c.signatures = c'.signatures := by decide
  have hname : entryName s c.signatures (some .dark) = entryName s' c'.signatures (some .dark) := by
    unfold entryName nameParts
    rw [hbase, hsignatures]
    rfl
  exact ⟨hname, entryName_distinct (hbuiltin _) (hbuiltin _) hname⟩

end AltRender.Cache

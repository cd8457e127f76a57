import AltRender.Proofs.Cache.Change
import AltRender.Render

/-!
# `Proofs/Cache/Eviction` — what is removed with a source

All entries of a source are removed by a test on their names alone: that the fingerprint of the
source stands in them, anywhere. It stands where it belongs in all entries of the source. In an
entry of another source it stands only by accident, and there are two such accidents
(`occursIn_entryName_iff`). The base name may hold it, for base names hold what users like; and if
the fingerprint happens to have no letters, a number in a signature may be long enough to hold it.
Where neither is the case, the entries of other sources are spared (`clearSource_spares`).

The second accident needs a number with as many digits in a row as a fingerprint has, and a
fingerprint that happens to be made of digits alone, about one in three hundred. Neither is
far-fetched enough to be left out, and both are shown to happen (`clearSource_stray`). What counts
in the proof is that a fingerprint has no underscore and none of the marks of a signature, so that
it cannot reach across two parts of a name (`infix_of_infix_intercalate`).
-/

set_option autoImplicit false

namespace AltRender.Cache

open AltRender.Decimal AltRender.Disk AltRender.Text

/-! ## One text within another -/

section Infix

variable {α : Type} {part as bs : List α} {x : α}

/-- A text that does not have the separator does not reach across it. -/
theorem infix_of_infix_append_cons (hx : x ∉ part) (h : part <:+: as ++ x :: bs) :
    part <:+: as ∨ part <:+: bs := by
  have hbegin : ∀ {front : List α}, x ∉ front → front <+: x :: bs → front = [] := by
    intro front hfront hprefix
    cases front with
    | nil => rfl
    | cons y front =>
      obtain ⟨rfl, -⟩ := List.cons_prefix_cons.mp hprefix
      exact absurd List.mem_cons_self hfront
  rcases List.infix_append_iff.mp h with has | hbs | ⟨front, back, rfl, hfront, hback⟩
  · exact .inl has
  · rcases List.infix_cons_iff.mp hbs with hprefix | hbs
    · exact .inl (hbegin hx hprefix ▸ List.nil_infix)
    · exact .inr hbs
  · obtain rfl := hbegin (fun hmem => hx (List.mem_append_right _ hmem)) hback
    rw [List.append_nil]
    exact .inl hfront.isInfix

theorem infix_of_infix_intercalate (hne : part ≠ []) (hx : x ∉ part) {parts : List (List α)}
    (h : part <:+: [x].intercalate parts) : ∃ p ∈ parts, part <:+: p := by
  induction parts with
  | nil => exact absurd (List.infix_nil.mp h) hne
  | cons p rest ih =>
    by_cases hrest : rest = []
    · subst hrest
      rw [List.intercalate_singleton] at h
      exact ⟨p, List.mem_cons_self, h⟩
    · rw [List.intercalate_cons_of_ne_nil hrest, List.append_assoc, List.singleton_append] at h
      rcases infix_of_infix_append_cons hx h with hp | hin
      · exact ⟨p, List.mem_cons_self, hp⟩
      · obtain ⟨q, hq, hpart⟩ := ih hin
        exact ⟨q, List.mem_cons_of_mem p hq, hpart⟩

theorem infix_intercalate_of_mem {parts : List (List α)} (h : part ∈ parts) (x : α) :
    part <:+: [x].intercalate parts := by
  induction parts with
  | nil => exact absurd h List.not_mem_nil
  | cons p rest ih =>
    by_cases hrest : rest = []
    · subst hrest
      rw [List.intercalate_singleton, List.mem_singleton.mp h]
    · rw [List.intercalate_cons_of_ne_nil hrest, List.append_assoc]
      rcases List.mem_cons.mp h with rfl | h
      · exact (List.prefix_append _ _).isInfix
      · exact (ih h).trans ⟨p ++ [x], [], by simp⟩

end Infix

/-- **What stands in a signature and has none of its separators stands in the name, a key or a
value.** -/
theorem infix_signatureText {part : List Char} (hne : part ≠ [])
    (hpart : ∀ c ∈ "(=,)".toList, c ∉ part) {name : String} {ps : List (String × String)}
    (h : part <:+: (signatureText name ps).toList) :
    part <:+: name.toList ∨ ∃ p ∈ ps, part <:+: p.1.toList ∨ part <:+: p.2.toList := by
  rw [toList_signatureText] at h
  unfold argumentsText at h
  split at h
  · rw [List.append_nil] at h
    exact .inl h
  · rcases infix_of_infix_append_cons (hpart _ (by decide)) h with hname | harguments
    · exact .inl hname
    · rcases infix_of_infix_append_cons (hpart _ (by decide)) harguments with hlist | hend
      · obtain ⟨text, htext, hin⟩ := infix_of_infix_intercalate hne (hpart _ (by decide)) hlist
        obtain ⟨p, hp, rfl⟩ := List.mem_map.mp htext
        exact .inr ⟨p, hp, infix_of_infix_append_cons (hpart _ (by decide)) hin⟩
      · exact absurd (List.infix_nil.mp hend) hne

/-! ## Where a fingerprint stands -/

section Fingerprint

variable {part cs : List Char}

theorem length_of_looksLikeFingerprint (h : looksLikeFingerprint part = true) :
    part.length = fingerprintLength := by
  rw [looksLikeFingerprint, Bool.and_eq_true, beq_iff_eq] at h
  exact h.1

theorem isSmallHex_of_looksLikeFingerprint (h : looksLikeFingerprint part = true) :
    ∀ c ∈ part, isSmallHex c = true := by
  rw [looksLikeFingerprint, Bool.and_eq_true, List.all_eq_true] at h
  exact h.2

/-- There are as many digits in a text that has a fingerprint in it. -/
theorem fingerprintLength_le_countP (h : looksLikeFingerprint part = true) (hin : part <:+: cs) :
    fingerprintLength ≤ cs.countP isSmallHex := by
  rw [← length_of_looksLikeFingerprint h,
    ← List.countP_eq_length.mpr (isSmallHex_of_looksLikeFingerprint h)]
  exact hin.sublist.countP_le

/-- A text with few digits has no fingerprint in it. -/
theorem not_infix_of_countP (h : looksLikeFingerprint part = true)
    (hfew : cs.countP isSmallHex < fingerprintLength) : ¬ part <:+: cs :=
  fun hin => absurd (fingerprintLength_le_countP h hin) (Nat.not_le.mpr hfew)

/-- **In the text of a number a fingerprint has decimal digits only.** -/
theorem isDigit_of_infix_plainText (h : looksLikeFingerprint part = true) {x : Float}
    (hin : part <:+: (plainText x).toList) : ∀ c ∈ part, isDigit c = true := by
  cases hx : Exact.ofFloat x with
  | notANumber =>
    rw [plainText_notANumber hx] at hin
    exact absurd hin (not_infix_of_countP h (by decide))
  | infinite negative =>
    rw [plainText_infinite hx] at hin
    refine absurd hin (not_infix_of_countP h ?_)
    cases negative <;> decide
  | finite negative m e =>
    rw [toList_plainText_finite hx] at hin
    intro c hc
    have hhex := isSmallHex_of_looksLikeFingerprint h c hc
    have hmem := hin.subset hc
    have hchar : c = '-' ∨ isDigit c = true ∨ c = '.' := by
      cases negative with
      | false => exact .inr (digit_or_point_of_mem_text hmem)
      | true => exact (List.mem_cons.mp hmem).imp_right digit_or_point_of_mem_text
    rcases hchar with rfl | hdigit | rfl
    · exact absurd hhex (by decide)
    · exact hdigit
    · exact absurd hhex (by decide)

theorem isDigit_of_infix_threshold (h : looksLikeFingerprint part = true) {t : Cutout.Threshold}
    (hin : part <:+: t.text.toList) : ∀ c ∈ part, isDigit c = true := by
  cases t with
  | uniform limit => exact isDigit_of_infix_plainText h hin
  | colour c =>
    refine absurd hin (not_infix_of_countP h ?_)
    rw [Cutout.Threshold.text, Colour.toList_toHex_solid]
    exact Nat.lt_of_le_of_lt List.countP_le_length (by simp [hexByte, fingerprintLength])

theorem isDigit_of_infix_parameters (h : looksLikeFingerprint part = true) {e : Effect}
    {p : String × String} (hp : p ∈ e.parameters)
    (hin : part <:+: p.1.toList ∨ part <:+: p.2.toList) : ∀ c ∈ part, isDigit c = true := by
  have hword : ∀ word : String, word.toList.countP isSmallHex < fingerprintLength →
    ¬ part <:+: word.toList :=
    fun word hfew => not_infix_of_countP h hfew
  have hamount : ∀ x : Float, p ∈ [("amount", plainText x)] → ∀ c ∈ part, isDigit c = true := by
    intro x hp
    obtain rfl := List.mem_singleton.mp hp
    exact isDigit_of_infix_plainText h (hin.resolve_left (hword "amount" (by decide)))
  cases e with
  | invert => exact absurd hp List.not_mem_nil
  | contrast amount => exact hamount amount hp
  | boostLightness amount => exact hamount amount hp
  | sharpness amount => exact hamount amount hp
  | transparent threshold side =>
    simp only [Effect.parameters, List.mem_cons, List.not_mem_nil, or_false] at hp
    rcases hp with rfl | rfl
    · exact isDigit_of_infix_threshold h (hin.resolve_left (hword "threshold" (by decide)))
    · refine absurd (hin.resolve_left (hword "remove" (by decide))) (hword side.word ?_)
      cases side <;> decide

/-- **In the signature of a built-in filter a fingerprint has decimal digits only.** -/
theorem isDigit_of_infix_signature (h : looksLikeFingerprint part = true) {b : Builtin}
    (hin : part <:+: b.signature.toList) : ∀ c ∈ part, isDigit c = true := by
  have hnames : ∀ name ∈ Builtin.makers.map Prod.fst,
    name.toList.countP isSmallHex < fingerprintLength := by decide
  have hseparators : ∀ c ∈ "(=,)".toList, (!isSmallHex c) = true := List.all_eq_true.mp (by decide)
  have hpart : ∀ c ∈ "(=,)".toList, c ∉ part :=
    fun c hc hmem =>
      absurd (isSmallHex_of_looksLikeFingerprint h c hmem) (by simpa using hseparators c hc)
  have hne : part ≠ [] := by
    rintro rfl
    exact absurd (length_of_looksLikeFingerprint h) (by decide)
  rw [b.signature_eq] at hin
  rcases infix_signatureText hne hpart hin with hname | ⟨p, hp, hparameter⟩
  · exact absurd hname (not_infix_of_countP h (hnames _ b.name_mem_makers))
  · cases b with
    | effect e => exact isDigit_of_infix_parameters h hp hparameter
    | darkmode => exact absurd hp List.not_mem_nil

/-- **Where a fingerprint stands in the name of an entry:** in the base name, in place of the
entry's own fingerprint, or in a signature. -/
theorem infix_entryName (h : looksLikeFingerprint part = true) {s : Source}
    {signatures : List String} {theme : Option Theme}
    (hin : part <:+: (entryName s signatures theme).toList) :
    part <:+: (sanitize s.baseName).toList ∨ part = (fingerprint s).toList ∨
    ∃ x ∈ signatures, part <:+: x.toList := by
  have hnot : ∀ c, isSmallHex c = false → c ∉ part :=
    fun c hc hmem => absurd (isSmallHex_of_looksLikeFingerprint h c hmem) (by simp [hc])
  have hne : part ≠ [] := by
    rintro rfl
    exact absurd (length_of_looksLikeFingerprint h) (by decide)
  rw [toList_entryName, List.append_assoc, List.cons_append] at hin
  -- No underscore and no dot is a hexadecimal digit, so the infix stands in one of the parts of the
  -- name; the theme and the extension have too few letters for it.
  rcases infix_of_infix_append_cons (hnot '_' (by decide)) hin with hbase | hrest
  · exact .inl hbase
  · have hrest' : part <:+:
        ['_'].intercalate
          ((fingerprint s).toList :: (tailParts signatures theme).map String.toList) ++
          '.' :: ['p', 'n', 'g'] := hrest
    rcases infix_of_infix_append_cons (hnot '.' (by decide)) hrest' with hparts | hend
    · obtain ⟨text, htext, hpart⟩ := infix_of_infix_intercalate hne (hnot '_' (by decide)) hparts
      rcases List.mem_cons.mp htext with rfl | htext
      · have hlength : part.length = (fingerprint s).toList.length := by
          rw [length_of_looksLikeFingerprint h, length_fingerprint]
        exact .inr (.inl (hpart.eq_of_length hlength))
      · obtain ⟨x, hx, rfl⟩ := List.mem_map.mp htext
        rcases List.mem_append.mp hx with hx | hx
        · exact .inr (.inr ⟨x, hx, hpart⟩)
        · obtain ⟨t, -, rfl⟩ := List.mem_map.mp hx
          refine absurd hpart (not_infix_of_countP h ?_)
          cases t <;> decide
    · exact absurd hend (not_infix_of_countP h (by decide))

end Fingerprint

/-- **A fingerprint stands in an entry of another source by accident:** in the base name, or,
without a letter in it, in a signature. -/
def Strays (mark : List Char) (s : Source) (signatures : List String) : Prop :=
  mark <:+: (sanitize s.baseName).toList ∨ mark.all isDigit = true ∧
    ∃ x ∈ signatures, mark <:+: x.toList

instance (mark : List Char) (s : Source) (signatures : List String) :
    Decidable (Strays mark s signatures) :=
  inferInstanceAs (Decidable (_ ∨ _))

/-- **Whose entries have the fingerprint of a source in their names:** those of sources with that
fingerprint, and the accidents. Chains of built-in filters make no others. -/
theorem occursIn_entryName_iff {s s' : Source} {c : Chain} (hc : c.IsBuiltin)
    {theme : Option Theme} :
    occursIn (fingerprint s).toList (entryName s' c.signatures theme).toList = true ↔
      fingerprint s' = fingerprint s ∨ Strays (fingerprint s).toList s' c.signatures := by
  have hlook := looksLikeFingerprint_fingerprint s
  constructor
  · intro h
    rcases infix_entryName hlook ((occursIn_iff _ _).mp h) with hbase | hown | ⟨x, hx, hin⟩
    · exact .inr (.inl hbase)
    · exact .inl (String.toList_inj.mp hown).symm
    · obtain ⟨b, rfl⟩ := Chain.exists_of_mem_signatures hc hx
      exact .inr
        (.inr ⟨List.all_eq_true.mpr (isDigit_of_infix_signature hlook (b := b) hin), _, hx, hin⟩)
  · rintro (hsame | hbase | ⟨-, x, hx, hin⟩)
    · exact hsame ▸ occursIn_fingerprint s' c.signatures theme
    · rw [occursIn_iff, toList_entryName, List.append_assoc]
      exact hbase.trans (List.prefix_append _ _).isInfix
    · have hpart :
        x.toList ∈ (fingerprint s').toList :: (tailParts c.signatures theme).map String.toList :=
        List.mem_cons_of_mem _ (List.mem_map_of_mem (List.mem_append_left _ hx))
      have hparts := (hin.trans (infix_intercalate_of_mem hpart '_')).trans
        (List.prefix_append _ extension.toList).isInfix
      rw [occursIn_iff, toList_entryName, List.append_assoc]
      exact hparts.trans ⟨(sanitize s'.baseName).toList ++ ['_'], [], by simp⟩

/-! ## Writing -/

/-- Bytes to be written to the entry of a source, a chain and a theme, and the time of it. -/
structure Writing where
  source : Source
  chain : Chain
  theme : Option Theme
  bytes : List UInt8
  now : Instant

def Writing.path (c : Cache) (w : Writing) : Path :=
  c.entryPath w.source w.chain.signatures w.theme

def Writing.place (c : Cache) (d : Disk) (w : Writing) : Location :=
  (w.path c).destination d.start

/-- One more entry is written, or cannot be. -/
def writeNext (sofar : Cache × Disk) (w : Writing) : Cache × Disk :=
  (sofar.1.write sofar.2 (w.path sofar.1) w.bytes w.now).2

/-- The cache and the disk after several entries were written. -/
def writeAll (c : Cache) (d : Disk) (writings : List Writing) : Cache × Disk :=
  writings.foldl writeNext (c, d)

theorem writeAll_cons {c c' : Cache} {d d' : Disk} {w : Writing} {result : Except Fault Unit}
    (hwrite : c.write d (w.path c) w.bytes w.now = (result, c', d')) (rest : List Writing) :
    c.writeAll d (w :: rest) = c'.writeAll d' rest := by
  have hnext : writeNext (c, d) w = (c', d') := congrArg Prod.snd hwrite
  rw [writeAll, List.foldl_cons, hnext, writeAll]

/-- All names in the directory of the cache are plain. -/
def PlainHome (c : Cache) (d : Disk) : Prop :=
  ∀ name, (d.seen (c.home d.start ++ [name])).isSome = true → PlainName name

theorem absoluteDirectory_write (c : Cache) (d : Disk) (p : Path) (bytes : List UInt8)
    (now : Instant) : (c.write d p bytes now).2.1.absoluteDirectory = c.absoluteDirectory := by
  unfold write
  split
  · rfl
  · split <;> rfl

/-- **Writing keeps the cache where it is and its names plain.** -/
theorem write_plain {c c' : Cache} {d d' : Disk} (h : PlainHome c d) {w : Writing}
    (hw : w.chain.IsBuiltin) {result : Except Fault Unit}
    (hwrite : c.write d (w.path c) w.bytes w.now = (result, c', d')) :
    c'.absoluteDirectory = c.absoluteDirectory ∧ d'.start = d.start ∧ PlainHome c' d' := by
  have hslash := noSlash_signatures hw
  have hdirectory : c'.absoluteDirectory = c.absoluteDirectory := by
    rw [← absoluteDirectory_write c d (w.path c) w.bytes w.now, hwrite]
  have hhome : ∀ start, c'.home start = c.home start := by
    intro start
    rw [home, hdirectory, home]
  obtain ⟨d₁, hgrown, hways⟩ := write_cases c d w.source hslash w.theme w.bytes w.now
  -- A directory made on the way may come to lie in the home itself, and its name is plain as well.
  have hplain : ∀ name, (d₁.seen (c.home d.start ++ [name])).isSome = true → PlainName name := by
    intro name hsome
    obtain ⟨item, hitem⟩ := Option.isSome_iff_exists.mp hsome
    rcases hgrown.new _ _ hitem with hold | ⟨-, -, parent, name', hplace, hname'⟩
    · exact h name (by rw [hold]; rfl)
    · obtain ⟨-, hlast⟩ := List.append_inj' hplace rfl
      rw [List.singleton_inj.mp hlast]
      exact hname'
  refine ⟨hdirectory, ?_⟩
  rw [PlainHome, hhome]
  rcases hways with ⟨fault, hfault⟩ | ⟨c₂, d₂, hinstall, hok⟩
  · obtain ⟨-, hstate⟩ := Prod.mk.inj (hwrite.symm.trans hfault)
    obtain ⟨-, rfl⟩ := Prod.mk.inj hstate
    exact ⟨hgrown.start, hgrown.start ▸ hplain⟩
  · obtain ⟨-, hstate⟩ := Prod.mk.inj (hwrite.symm.trans hok)
    obtain ⟨-, rfl⟩ := Prod.mk.inj hstate
    obtain ⟨haltered, -⟩ := install_ok hinstall
    rw [hgrown.start, destination_entryPath c d.start w.source hslash w.theme] at haltered
    refine ⟨haltered.start.trans hgrown.start, fun name hsome => ?_⟩
    rw [haltered.start, hgrown.start] at hsome
    by_cases hname : name = entryName w.source w.chain.signatures w.theme
    · exact hname ▸ plainName_entryName w.source hslash w.theme
    · rw [haltered.seen_of_ne (by simpa using hname)] at hsome
      exact hplain name hsome

/-- **However many entries are written, the cache stays where it is** and its names stay plain. -/
theorem writeAll_plain {c c' : Cache} {d d' : Disk} (h : PlainHome c d) {writings : List Writing}
    (hwritings : ∀ w ∈ writings, w.chain.IsBuiltin) (hreached : c.writeAll d writings = (c', d')) :
    c'.absoluteDirectory = c.absoluteDirectory ∧ d'.start = d.start ∧ PlainHome c' d' := by
  induction writings generalizing c d with
  | nil =>
    obtain ⟨rfl, rfl⟩ := Prod.mk.inj (show (c, d) = (c', d') from hreached)
    exact ⟨rfl, rfl, h⟩
  | cons w rest ih =>
    obtain ⟨hw, hrest⟩ := List.forall_mem_cons.mp hwritings
    rcases hwrite : c.write d (w.path c) w.bytes w.now with ⟨result, c₁, d₁⟩
    obtain ⟨hdirectory, hstart, hplain⟩ := write_plain h hw hwrite
    rw [writeAll_cons hwrite] at hreached
    obtain ⟨hdirectory', hstart', hplain'⟩ := ih hplain hrest hreached
    exact ⟨hdirectory'.trans hdirectory, hstart'.trans hstart, hplain'⟩

/-! ## Removing -/

section Spares

variable {directory : Path} {home : Location} {test : String → Bool} {now : Instant} {name : String}

theorem removeFile_spares {d : Disk} {p : Path} {l : Location} (h : l ≠ p.destination d.start)
    (now : Instant) : (removeFile d p now).2.seen l = d.seen l := by
  unfold removeFile
  split
  · rename_i d' hremove
    obtain ⟨haltered, -⟩ := remove_ok hremove
    exact haltered.seen_of_ne h
  · rfl

theorem removeNext_spares {sofar : Nat × Disk} (hhome : directory.destination sofar.2.start = home)
    {name' : String} (hname' : PlainName name') (htest : test name = false) :
    (removeNext directory test now sofar name').2.seen (home ++ [name]) =
      sofar.2.seen (home ++ [name]) := by
  unfold removeNext
  split
  · rename_i hremoved
    have hne : name ≠ name' := by
      rintro rfl
      rw [htest, Bool.and_false] at hremoved
      exact absurd hremoved (by simp)
    have hplace : home ++ [name] ≠ (directory.join ⟨name'⟩).destination sofar.2.start := by
      rw [Path.destination_join _ _ hname', hhome]
      simpa using hne
    exact removeFile_spares hplace now
  · rfl

theorem foldl_removeNext_spares {names : List String} (hnames : ∀ n ∈ names, PlainName n)
    (htest : test name = false) {sofar : Nat × Disk}
    (hhome : directory.destination sofar.2.start = home) :
    (names.foldl (removeNext directory test now) sofar).2.seen (home ++ [name]) =
      sofar.2.seen (home ++ [name]) := by
  induction names generalizing sofar with
  | nil => rfl
  | cons first rest ih =>
    obtain ⟨hfirst, hrest⟩ := List.forall_mem_cons.mp hnames
    have hstart := (removeNext_thinned hhome hfirst test now).start
    rw [List.foldl_cons, ih hrest (hstart ▸ hhome), removeNext_spares hhome hfirst htest]

/-- **A file whose name fails the test is spared.** -/
theorem removeMatching_spares {d : Disk} (hhome : directory.destination d.start = home)
    (hplain : ∀ n, (d.seen (home ++ [n])).isSome = true → PlainName n) (htest : test name = false) :
    (removeMatching directory d test now).2.seen (home ++ [name]) = d.seen (home ++ [name]) := by
  cases hnames : d.names directory with
  | error fault =>
    rw [removeMatching, hnames]
  | ok names =>
    have hall := plainName_of_names hhome hplain hnames
    rw [removeMatching_of_names hnames]
    exact foldl_removeNext_spares hall htest hhome

end Spares

/-- **Removing the entries of a source spares those of other sources,** but for accidents. Whatever
entries were written, of chains of built-in filters: when all entries of a source are removed, the
entry of a source with another fingerprint stays as it is, unless the fingerprint strays into its
name. Nothing else stays: an entry of the source, or one with an accident, is gone if it was
found. -/
theorem clearSource_spares {c : Cache} {d : Disk} (hplain : PlainHome c d) {writings : List Writing}
    (hwritings : ∀ w ∈ writings, w.chain.IsBuiltin) {c' : Cache} {d' : Disk}
    (hreached : c.writeAll d writings = (c', d')) (s : Source) (now : Instant) {w : Writing}
    (hw : w ∈ writings) :
    (fingerprint w.source ≠ fingerprint s →
      ¬ Strays (fingerprint s).toList w.source w.chain.signatures →
        (c'.clearSource d' s now).2.2.seen (w.place c' d') = d'.seen (w.place c' d') ∧
          ∀ registry codec reads,
            (Studio.invalidate ⟨registry, codec, c', d', reads⟩ s now).2.disk.seen (w.place c' d') =
            d'.seen (w.place c' d')) ∧
      (fingerprint w.source = fingerprint s ∨
        Strays (fingerprint s).toList w.source w.chain.signatures →
        c'.absoluteDirectory.text.toList ≠ [] →
        ∀ bytes t, d'.look (w.path c') = .ok (.file bytes t) →
          ∀ bytes t, (c'.clearSource d' s now).2.2.seen (w.place c' d') ≠
            some (.file bytes t)) := by
  obtain ⟨-, -, hplain'⟩ := writeAll_plain hplain hwritings hreached
  have hbuiltin := hwritings w hw
  have hslash := noSlash_signatures hbuiltin
  have hplace : (w.path c').destination d'.start =
      c'.home d'.start ++ [entryName w.source w.chain.signatures w.theme] :=
    destination_entryPath c' d'.start w.source hslash w.theme
  have htest : occursIn (fingerprint s).toList
    (entryName w.source w.chain.signatures w.theme).toList = true ↔ _ :=
    occursIn_entryName_iff hbuiltin
  rw [Writing.place, hplace]
  -- Both halves are the one test on the name: where it fails the file is passed over, where it
  -- holds the file at that place is removed.
  refine ⟨fun hother hstray => ?_, fun hmark hdirectory bytes t hlook => ?_⟩
  · have hfails : occursIn (fingerprint s).toList
      (entryName w.source w.chain.signatures w.theme).toList = false :=
      Bool.eq_false_iff.mpr fun h => (htest.mp h).elim hother hstray
    have hspared :
        (c'.clearSource d' s now).2.2.seen
          (c'.home d'.start ++ [entryName w.source w.chain.signatures w.theme]) =
          d'.seen (c'.home d'.start ++ [entryName w.source w.chain.signatures w.theme]) :=
      removeMatching_spares rfl hplain' hfails
    exact ⟨hspared, fun _ _ _ => hspared⟩
  · have hfind : d'.find (w.path c') =
      .ok (c'.home d'.start ++ [entryName w.source w.chain.signatures w.theme]) :=
      hplace ▸ (look_ok hlook).1
    exact fun bytes t => removeMatching_removes hdirectory rfl hplain'
      (plainName_entryName w.source hslash w.theme) (htest.mpr hmark) fun _ => hfind

/-! ## Near and full accidents -/

/-- A source whose fingerprint, `829562946479`, has no letters. -/
def numbered : Source :=
  ⟨"37.png", "37.png", "37", 0⟩

/-- Entries of two other sources: one has the digits for its base name, the other is rendered with
them. -/
def twoWritings (digits : String) : List Writing :=
  [⟨⟨digits ++ ".png", digits ++ ".png", digits, 0⟩, Registry.builtin.chainOf "@invert", none, [1],
    ⟨1⟩⟩,
    ⟨⟨"a.png", "a.png", "a", 0⟩, Registry.builtin.chainOf ("@contrast(amount=" ++ digits ++ ")"),
      some .dark, [2], ⟨2⟩⟩]

/-- The cache and the disk with these entries. -/
def withTwo (digits : String) : Cache × Disk :=
  writeAll (ofDirectory ⟨""⟩ ⟨"c"⟩) Disk.empty (twoWritings digits)

/-- The disk when all entries of the numbered source were removed. -/
def withoutNumbered (digits : String) : Disk :=
  ((withTwo digits).1.clearSource (withTwo digits).2 numbered ⟨3⟩).2.2

/-- What stands on a disk in the places of the two entries. -/
def twoEntries (digits : String) (d : Disk) : List (Option Item) :=
  (twoWritings digits).map fun w => d.seen (w.place (withTwo digits).1 (withTwo digits).2)

theorem plainHome_empty (c : Cache) : PlainHome c Disk.empty := by
  intro name hsome
  rw [seen_of_ne_nil _ (by simp)] at hsome
  exact absurd hsome (by simp [Disk.empty])

theorem isBuiltin_twoWritings (digits : String) : ∀ w ∈ twoWritings digits, w.chain.IsBuiltin :=
  List.forall_mem_cons.mpr
    ⟨Chain.isBuiltin_chainOf _,
      List.forall_mem_cons.mpr ⟨Chain.isBuiltin_chainOf _, List.forall_mem_nil _⟩⟩

/-- With one digit less than the fingerprint has, both entries stay. -/
theorem clearSource_spares_twoWritings :
    twoEntries "82956294647" (withoutNumbered "82956294647") =
      [some (.file [1] ⟨1⟩), some (.file [2] ⟨2⟩)] := by
  have hapart : ∀ w ∈ twoWritings "82956294647",
      fingerprint w.source ≠ fingerprint numbered ∧
        ¬ Strays (fingerprint numbered).toList w.source w.chain.signatures := by
    decide +kernel
  have hreached : writeAll (ofDirectory ⟨""⟩ ⟨"c"⟩) Disk.empty (twoWritings "82956294647") =
      ((withTwo "82956294647").1, (withTwo "82956294647").2) := rfl
  have hspared : twoEntries "82956294647" (withoutNumbered "82956294647") =
      twoEntries "82956294647" (withTwo "82956294647").2 := by
    refine List.map_congr_left fun w hw => ?_
    obtain ⟨hother, hstray⟩ := hapart w hw
    have hspared :=
      clearSource_spares (plainHome_empty _) (isBuiltin_twoWritings _) hreached numbered ⟨3⟩ hw
    exact (hspared.1 hother hstray).1
  rw [hspared]
  decide +kernel

/-- **Accidents happen.** With all the digits of the fingerprint, both entries are gone when those
of its source are removed. -/
theorem clearSource_stray :
    (∀ w ∈ twoWritings "829562946479", w.chain.IsBuiltin) ∧
      (∀ w ∈ twoWritings "829562946479", fingerprint w.source ≠ fingerprint numbered) ∧
      twoEntries "829562946479" (withTwo "829562946479").2 =
        [some (.file [1] ⟨1⟩), some (.file [2] ⟨2⟩)] ∧
      twoEntries "829562946479" (withoutNumbered "829562946479") = [none, none] :=
  ⟨isBuiltin_twoWritings _, by decide +kernel⟩

end AltRender.Cache

import AltRender.Proofs.Directive.Place

/-!
# `Proofs/Directive/Sites` — every `@` is accounted for

The reader goes through a text once. At an `@` it knows the directives it has read so far and the
character just before, and from these it tells whether a directive starts there. The place of an `@`
is defined from all directives of the text, also those behind it. Both come to the same, because a
later directive has no say in the place of an earlier `@` (`placeOf_append`), so that what the
reader knows when it comes to one is enough (`Sofar.placeOf_iff`). That is the induction over the
text.

So the reader attempts a directive at each start, in their order, and nowhere else
(`sites_accounted`).
-/

set_option autoImplicit false

namespace AltRender.Directive

open AltRender.Text

/-! ## Places of the `@` that come next -/

variable {prior later : List Site} {s : Site}

/-- Directives that start further ahead have no say in the place of an `@`. -/
theorem placeOf_append (h : ∀ t ∈ later, s.offset ≤ t.offset) :
    placeOf (prior ++ later) s = placeOf prior s := by
  have hcovers : later.any (fun t => t.covers s) = false := by
    rw [List.any_eq_false]
    intro t ht
    rw [Site.covers_of_le (Nat.le_trans (h t ht) (Nat.le_of_lt t.offset_lt_nameEnd))]
    decide
  have hends : later.any (fun t => t.nameEnd = s.offset) = false := by
    rw [List.any_eq_false]
    intro t ht
    have hle := h t ht
    have hlt := t.offset_lt_nameEnd
    simp only [decide_eq_true_eq]
    omega
  simp only [placeOf, List.any_append, hcovers, hends, Bool.or_false]

/-- What the reader knows when it comes to an offset: the directives that were read so far, and
whether the character before it is part of a word. -/
structure Sofar (before : List Char) (attached : Bool) (prior : List Site) : Prop where
  passed : ∀ t ∈ prior, t.Passed (byteLength before)
  attached : attached =
    (before.getLast?.any isNameChar && !prior.any fun t => t.nameEnd = byteLength before)

/-- The place of the next `@`, as the reader tells it. -/
theorem Sofar.placeOf_iff {before behind : List Char} {attached : Bool}
    (h : Sofar before attached prior) :
    placeOf prior ⟨before, behind⟩ = .start ↔
      attached = false ∧ behind.takeWhile isNameChar ≠ [] := by
  have hcovers : prior.any (fun t => t.covers ⟨before, behind⟩) = false := by
    rw [List.any_eq_false]
    intro t ht
    rw [(h.passed t ht).arguments _ (Nat.le_refl _)]
    decide
  have hname : (⟨before, behind⟩ : Site).name = behind.takeWhile isNameChar := rfl
  have hattached : ((⟨before, behind⟩ : Site).before.getLast?.any isNameChar &&
      !prior.any fun t => t.nameEnd = (⟨before, behind⟩ : Site).offset) = attached :=
        h.attached.symm
  rw [placeOf, hcovers, hattached, hname]
  cases attached <;> cases behind.takeWhile isNameChar <;> simp

/-- One more character that starts no directive. -/
theorem Sofar.concat {before : List Char} {attached : Bool} (h : Sofar before attached prior)
    (c : Char) : Sofar (before ++ [c]) (isNameChar c) prior := by
  have hsize := c.utf8Size_pos
  have hlength : byteLength (before ++ [c]) = byteLength before + c.utf8Size := by
    rw [byteLength_append, byteLength_cons, byteLength_nil, Nat.add_zero]
  refine ⟨fun t ht => (h.passed t ht).mono (by omega), ?_⟩
  have hends : prior.any (fun t => t.nameEnd = byteLength (before ++ [c])) = false := by
    rw [List.any_eq_false]
    intro t ht
    have hle := (h.passed t ht).name
    simp only [decide_eq_true_eq]
    omega
  rw [hends, List.getLast?_concat]
  simp

/-- **What a directive takes of the text:** its name and the arguments that are accepted. Reading
goes on behind them, and each `@` in them is one of the arguments. -/
theorem Sofar.directive {before behind : List Char} {attached : Bool}
    (h : Sofar before attached prior) {s : Site} (hs : s = ⟨before, behind⟩) :
    ∃ taken, behind = taken ++ (readTail s.nameEnd s.tail).2.2 ∧
      byteLength (before ++ '@' :: taken) = (readTail s.nameEnd s.tail).2.1 ∧
      Sofar (before ++ '@' :: taken) false (prior ++ [s]) ∧
      ∀ xs ys, taken = xs ++ '@' :: ys → ∀ zs, s.covers ⟨before ++ '@' :: xs, zs⟩ = true := by
  have hsplit : behind = s.name ++ s.tail := by
    rw [hs]
    exact List.takeWhile_append_dropWhile.symm
  have hoffset : s.offset = byteLength before := by rw [hs, Site.offset]
  have hend : byteLength (before ++ '@' :: s.name) = s.nameEnd := by
    rw [Site.nameEnd, hoffset, byteLength_append, byteLength_cons,
      byteLength_of_isNameChar s.isNameChar_of_mem_name,
      show '@'.utf8Size = 1 from rfl, Nat.add_assoc]
  have hpassed {offset : Nat} (hle : byteLength before ≤ offset) (hlast : s.Passed offset) :
      ∀ t ∈ prior ++ [s], t.Passed offset := by
    intro t ht
    rcases List.mem_append.mp ht with ht | ht
    · exact (h.passed t ht).mono hle
    · exact List.mem_singleton.mp ht ▸ hlast
  have hlt : byteLength before ≤ s.nameEnd := hoffset ▸ Nat.le_of_lt s.offset_lt_nameEnd
  -- Without a closed list the directive ends with its name; with one it covers all that stands in
  -- the parentheses.
  rcases s.tail_cases with ⟨hnone, htail⟩ | ⟨inside, beyond, hsome, hlist, htail⟩
  · refine ⟨s.name, by rw [htail]; exact hsplit, by rw [htail]; exact hend, ⟨?_, ?_⟩, ?_⟩
    · rw [hend]
      exact hpassed hlt ⟨Nat.le_refl _, fun t _ => s.covers_of_none hnone t⟩
    · -- The name ends where reading goes on.
      rw [hend]
      simp
    · intro xs ys hxs
      exact absurd (s.isNameChar_of_mem_name '@' (by rw [hxs]; simp)) (by decide)
  · have hlength : byteLength (before ++ '@' :: (s.name ++ '(' :: (inside ++ [')']))) =
        s.nameEnd + byteLength inside + 2 := by
      simp only [byteLength_append, byteLength_cons, byteLength_nil, show '('.utf8Size = 1 from rfl,
        show ')'.utf8Size = 1 from rfl] at hend ⊢
      omega
    refine ⟨s.name ++ '(' :: (inside ++ [')']), ?_, by rw [htail]; exact hlength, ⟨?_, ?_⟩, ?_⟩
    · rw [htail, hsplit, hlist]
      simp
    · rw [hlength]
      refine hpassed (by omega) ⟨by omega, fun t ht => ?_⟩
      rw [Bool.eq_false_iff, Ne, Site.covers_iff hsome]
      omega
    · -- A parenthesis is no name character.
      have hlast : (before ++ '@' :: (s.name ++ '(' :: (inside ++ [')']))).getLast? = some ')' := by
        rw [show before ++ '@' :: (s.name ++ '(' :: (inside ++ [')'])) =
          (before ++ '@' :: (s.name ++ '(' :: inside)) ++ [')'] by simp, List.getLast?_concat]
      rw [hlast]
      rfl
    · intro xs ys hxs zs
      exact Site.covers_of_inside hend hsome hxs zs

theorem placeOf_of_covers {attempted : List Site} {t : Site} (ht : t ∈ attempted)
    (h : t.covers s = true) : placeOf attempted s = .argument :=
  if_pos (List.any_eq_true.mpr ⟨t, ht, h⟩)

/-- What is kept of the text that follows starts there or further ahead. -/
theorem le_offset_of_later {before ds : List Char} {p : Site → Bool}
    (hlater : later = (sitesFrom before ds).filter p) {offset : Nat}
    (hle : offset ≤ byteLength before) : ∀ t ∈ later, offset ≤ t.offset := by
  intro t ht
  rw [hlater] at ht
  exact Nat.le_trans hle (le_offset_of_mem (List.mem_of_mem_filter ht))

/-- **The reader attempts a directive at each `@` that is left for a start,** and nowhere else. -/
theorem attemptsFrom_sites (attached : Bool) (offset : Nat) (cs : List Char) :
    ∀ {before : List Char} {prior : List Site}, byteLength before = offset →
    Sofar before attached prior →
      ∃ later, attemptsFrom attached offset cs = later.map Site.attempt ∧
        later = (sitesFrom before cs).filter fun s => placeOf (prior ++ later) s = .start := by
  induction attached, offset, cs using attemptsFrom.induct with
  | case1 attached offset =>
    intro before prior _ _
    exact ⟨[], by simp [attemptsFrom], rfl⟩
  | case2 attached offset c rest name hc behind =>
    rename_i tail ih
    intro before prior hoffset hsofar
    subst hoffset
    obtain ⟨rfl, hattached, hne⟩ := hc
    -- The directive, what it takes of the text, and the directives behind it.
    obtain ⟨s, hs⟩ : ∃ s : Site, s = ⟨before, rest⟩ := ⟨_, rfl⟩
    have htail : readTail s.nameEnd s.tail = tail := by
      rw [hs]
      rfl
    obtain ⟨taken, hrest, hlength, hsofar', hcovers⟩ := hsofar.directive hs
    rw [htail] at hrest hlength
    obtain ⟨later, hattempts, hlater⟩ := ih hlength hsofar'
    have hbefore : byteLength before ≤ byteLength (before ++ '@' :: taken) := by
      rw [byteLength_append]
      exact Nat.le_add_right _ _
    have hahead : ∀ t ∈ s :: later, byteLength before ≤ t.offset :=
      List.forall_mem_cons.mpr ⟨Nat.le_of_eq (by rw [hs]; rfl), le_offset_of_later hlater hbefore⟩
    have hstart : placeOf (prior ++ s :: later) s = .start := by
      rw [placeOf_append (by rw [hs] at hahead ⊢; exact hahead), hs, hsofar.placeOf_iff]
      exact ⟨by simpa using hattached,
        by simpa only [Bool.not_eq_true', List.isEmpty_eq_false_iff] using hne⟩
    refine ⟨s :: later, ?_, ?_⟩
    · rw [attemptsFrom, if_pos ⟨rfl, hattached, hne⟩, List.map_cons, ← hattempts, hs]
      rfl
    · rw [sitesFrom, if_pos rfl, ← hs, List.filter_cons_of_pos (by rw [hstart]; rfl),
        List.cons.injEq]
      refine ⟨rfl, ?_⟩
      rw [hrest, filter_sitesFrom_append, List.append_assoc, List.singleton_append,
        show prior ++ s :: later = prior ++ [s] ++ later by simp]
      · exact hlater
      · intro xs ys hxs
        rw [List.append_assoc, List.singleton_append,
          placeOf_of_covers (List.mem_append_right _ List.mem_cons_self) (hcovers xs ys hxs _)]
        rfl
  | case3 attached offset c rest name hc =>
    rename_i ih
    intro before prior hoffset hsofar
    have hlength : byteLength (before ++ [c]) = offset + c.utf8Size := by
      rw [byteLength_append, byteLength_cons, byteLength_nil, Nat.add_zero, hoffset]
    obtain ⟨later, hattempts, hlater⟩ := ih hlength (hsofar.concat c)
    refine ⟨later, by rw [attemptsFrom, if_neg hc, hattempts], ?_⟩
    rw [← List.singleton_append, filter_sitesFrom_append, ← hlater]
    intro xs ys hxs
    -- If the character is an `@`, it is one without a name or part of a word.
    cases xs with
    | cons x xs => exact absurd (congrArg List.length hxs) (by simp)
    | nil =>
      obtain ⟨hat, rfl⟩ := List.cons.inj hxs
      have hahead : ∀ t ∈ later, byteLength before ≤ t.offset := le_offset_of_later hlater (by simp)
      rw [List.append_nil, List.nil_append, placeOf_append hahead, decide_eq_false_iff_not,
        hsofar.placeOf_iff]
      rintro ⟨hattached, hne⟩
      exact hc ⟨hat, by simpa using hattached,
        by simpa only [Bool.not_eq_true', List.isEmpty_eq_false_iff] using hne⟩

/-! ## Annotations -/

/-- An attempt ends in a request or in a problem, and either has its name. -/
theorem Attempt.item_cases (a : Attempt) :
    (∃ parameters, a.spec? = some ⟨a.name, parameters⟩ ∧ a.diagnostic? = none) ∨
      ∃ problem, a.spec? = none ∧ a.diagnostic? = some ⟨a.name, problem⟩ := by
  obtain ⟨offset, name, outcome⟩ := a
  cases outcome with
  | ok parameters => exact .inl ⟨parameters, rfl, rfl⟩
  | error problem => exact .inr ⟨problem, rfl, rfl⟩

theorem length_items (as : List Attempt) :
    (as.filterMap Attempt.spec?).length + (as.filterMap Attempt.diagnostic?).length =
      as.length := by
  induction as with
  | nil => rfl
  | cons a as ih =>
    rw [List.length_cons, ← ih]
    rcases a.item_cases with ⟨parameters, hspec, hdiagnostic⟩ | ⟨problem, hspec, hdiagnostic⟩
    · rw [List.filterMap_cons_some hspec, List.filterMap_cons_none hdiagnostic, List.length_cons]
      omega
    · rw [List.filterMap_cons_none hspec, List.filterMap_cons_some hdiagnostic, List.length_cons]
      omega

/-- If the attempts are those at the sites that some test keeps, these are the sites where
directives are attempted. -/
theorem attempted_eq {text : String} {kept : List Site} {p : Site → Bool}
    (hkept : kept = (sites text).filter p) (h : attempts text = kept.map Site.attempt) :
    attempted text = kept := by
  rw [attempted, hkept]
  refine List.filter_congr fun s hs => Bool.eq_iff_iff.mpr ?_
  rw [h, List.any_eq_true]
  constructor
  · rintro ⟨a, ha, hoffset⟩
    obtain ⟨t, ht, rfl⟩ := List.mem_map.mp ha
    rw [hkept, List.mem_filter] at ht
    obtain rfl := eq_of_offset_eq ht.1 hs (of_decide_eq_true hoffset)
    exact ht.2
  · intro hp
    exact ⟨s.attempt, List.mem_map_of_mem (hkept ▸ List.mem_filter.mpr ⟨hs, hp⟩),
      decide_eq_true rfl⟩

theorem attempts_eq (text : String) :
    attempted text = starts text ∧ attempts text = (starts text).map Site.attempt := by
  have hsofar : Sofar [] false [] := ⟨List.forall_mem_nil _, rfl⟩
  obtain ⟨kept, hattempts, hkept⟩ := attemptsFrom_sites false 0 text.toList rfl hsofar
  have hattempted : attempted text = kept := attempted_eq hkept hattempts
  have hstarts : starts text = kept := by
    rw [starts, hattempted]
    exact hkept.symm
  exact ⟨hattempted.trans hstarts.symm, hstarts ▸ hattempts⟩

/-- **Every `@` is accounted for exactly once.** The sites are the ways to split the text at an `@`,
in the order of their offsets. Directives are attempted at the starts and nowhere else, in this
order, and at each of them there is one request or one problem, under the longest name behind the
`@`. So what is asked for and what is wrong are together as many as the starts. -/
theorem sites_accounted (text : String) :
    (∀ before behind, ⟨before, behind⟩ ∈ sites text ↔ text.toList = before ++ '@' :: behind) ∧
      (sites text).Pairwise (fun s t => s.offset < t.offset) ∧
      attempted text = starts text ∧
      attempts text = (starts text).map Site.attempt ∧
      (∀ s : Site, (∃ parameters, s.attempt.spec? = some ⟨String.ofList s.name, parameters⟩ ∧
        s.attempt.diagnostic? = none) ∨
        ∃ problem, s.attempt.spec? = none ∧
          s.attempt.diagnostic? = some ⟨String.ofList s.name, problem⟩) ∧
      specs text = (starts text).filterMap (fun s => s.attempt.spec?) ∧
      diagnostics text = (starts text).filterMap (fun s => s.attempt.diagnostic?) ∧
      (specs text).length + (diagnostics text).length = (starts text).length := by
  obtain ⟨hattempted, hattempts⟩ := attempts_eq text
  refine ⟨fun before behind => ?_, pairwise_sitesFrom [] text.toList, hattempted, hattempts,
    fun s => s.attempt.item_cases, ?_, ?_, ?_⟩
  · rw [sites, mem_sitesFrom]
    constructor
    · rintro ⟨xs, ys, htext, hsite⟩
      obtain ⟨rfl, rfl⟩ := Site.mk.inj hsite
      exact htext
    · intro htext
      exact ⟨before, behind, htext, rfl⟩
  · rw [specs, hattempts, List.filterMap_map]
    rfl
  · rw [diagnostics, hattempts, List.filterMap_map]
    rfl
  · rw [specs, diagnostics, length_items, hattempts, List.length_map]

/-- A word, a directive with an `@` in its arguments, one that is refused with an `@` in its list,
and one behind its name. -/
example :
    (sites "me@home @c(t=\"@a\") @d(@e=@)@f").map
      (placeOf (attempted "me@home @c(t=\"@a\") @d(@e=@)@f")) =
    [.word, .start, .argument, .start, .start, .nameless, .start] := by
  decide +kernel

end AltRender.Directive

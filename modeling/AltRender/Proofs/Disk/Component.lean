import AltRender.Proofs.Disk.Route

/-!
# `Proofs/Disk/Component` — the components of joined paths and of parents

A path is kept as a text, and what it means is its components. Two things that are done to the text
have to be known in the components. Joining a name to a path adds that name at the end
(`Path.components_join`), whether or not a slash had to be put in between and whatever the path
looked like before; joining any relative path adds all of its components
(`Path.components_join_relative`). Taking the parent drops the last component
(`Path.components_parent?`), though the text may have a tail of empty pieces and dots behind it that
goes as well.

Both come down to the pieces between slashes. The only piece that is treated in a way of its own is
the first one, which can be a dot that counts (`leadOf`).
-/

set_option autoImplicit false

namespace AltRender.Disk

open AltRender.Text

/-! ## Joined paths -/

theorem cut_of_not_mem {d : Char} {cs : List Char} (h : d ∉ cs) : cut d cs = [cs] := by
  induction cs with
  | nil => rfl
  | cons c cs ih =>
    simp only [List.mem_cons, not_or] at h
    rw [cut, if_neg (Ne.symm h.1), ih h.2]

theorem cut_append_cons (d : Char) (cs ds : List Char) :
    cut d (cs ++ d :: ds) = cut d cs ++ cut d ds := by
  induction cs with
  | nil => simp [cut]
  | cons c cs ih =>
    rw [List.cons_append, cut, cut]
    split
    · rw [ih, List.cons_append]
    · rw [ih]
      cases hcut : cut d cs with
      | nil => exact absurd hcut (cut_ne_nil d cs)
      | cons piece pieces => rfl

theorem cut_glue {d : Char} {pieces : List (List Char)} (hne : pieces ≠ [])
    (h : ∀ piece ∈ pieces, d ∉ piece) : cut d (glue d pieces) = pieces := by
  induction pieces with
  | nil => exact absurd rfl hne
  | cons piece rest ih =>
    have hpiece := h piece List.mem_cons_self
    cases rest with
    | nil => exact cut_of_not_mem hpiece
    | cons next rest =>
      rw [glue, cut_append_cons, cut_of_not_mem hpiece,
        ih (List.cons_ne_nil _ _) fun q hq => h q (List.mem_cons_of_mem _ hq)]
      rfl

/-- The component or the slash that the first of some pieces stands for. -/
def leadOf (first : List Char) (rest : List (List Char)) : List Component :=
  if first = [] then if rest = [] then [] else [.root]
  else if first = ['.'] then [.here] else (Path.component? first).toList

theorem Path.components_eq {p : Path} {first : List Char} {rest : List (List Char)}
    (hp : p.pieces = first :: rest) :
    p.components = leadOf first rest ++ rest.filterMap component? := by
  simp only [components, hp]
  congr 1
  unfold leadOf
  cases habs : p.isAbsolute with
  | true =>
    -- A text of one piece has no slash at all.
    have hrest : rest ≠ [] := by
      rintro rfl
      have htext := glue_cut '/' p.text.toList
      rw [show cut '/' p.text.toList = [first] from hp, first_of_isAbsolute hp habs] at htext
      rw [isAbsolute, ← htext] at habs
      exact absurd habs (by decide)
    simp [first_of_isAbsolute hp habs, hrest]
  | false =>
    by_cases hfirst : first = []
    · subst hfirst
      cases rest with
      | nil => rfl
      | cons next rest =>
        have htext := glue_cut '/' p.text.toList
        rw [show cut '/' p.text.toList = [] :: next :: rest from hp] at htext
        rw [isAbsolute, ← htext] at habs
        exact absurd habs (by simp [glue])
    · simp [hfirst]

theorem leadOf_eq {first : List Char} {rest rest' : List (List Char)}
    (h : first = [] → (rest = [] ↔ rest' = [])) : leadOf first rest = leadOf first rest' := by
  unfold leadOf
  split
  · rename_i hfirst
    simp only [h hfirst]
  · rfl

theorem PlainName.isAbsolute {name : String} (h : PlainName name) :
    (⟨name⟩ : Path).isAbsolute = false := by
  rw [Path.isAbsolute, beq_eq_false_iff_ne]
  intro hhead
  exact h.noSlash (List.mem_of_head? hhead)

/-- A relative path is put behind another one, with a slash in between if there is need of one. -/
theorem Path.toList_join_relative (p : Path) {q : Path} (h : q.isAbsolute = false) :
    (p.text.toList = [] ∨ p.text.toList.getLast? = some '/') ∧
    (p.join q).text.toList = p.text.toList ++ q.text.toList ∨
      (p.text.toList ≠ [] ∧ p.text.toList.getLast? ≠ some '/') ∧
        (p.join q).text.toList = p.text.toList ++ '/' :: q.text.toList := by
  simp only [join, h, Bool.false_eq_true, if_false]
  by_cases hends : p.text.toList = [] ∨ p.text.toList.getLast? = some '/'
  · have htest : (p.text.toList.isEmpty || p.text.toList.getLast? == some '/') = true := by
      simpa using hends
    rw [if_pos htest]
    exact .inl ⟨hends, String.toList_append⟩
  · have htest : ¬ (p.text.toList.isEmpty || p.text.toList.getLast? == some '/') = true := by
      simpa using hends
    rw [if_neg htest]
    refine .inr ⟨not_or.mp hends, ?_⟩
    rw [String.toList_append, String.toList_append, List.append_assoc]
    rfl

/-- Joining a name puts it behind a path, with a slash in between if there is need of one. -/
theorem Path.toList_join (p : Path) {name : String} (h : PlainName name) :
    (p.text.toList = [] ∨ p.text.toList.getLast? = some '/') ∧
        (p.join ⟨name⟩).text.toList = p.text.toList ++ name.toList ∨
      (p.text.toList ≠ [] ∧ p.text.toList.getLast? ≠ some '/') ∧
        (p.join ⟨name⟩).text.toList = p.text.toList ++ '/' :: name.toList :=
  p.toList_join_relative h.isAbsolute

/-- A relative path adds its pieces, the first of them in place of an empty one at the end. -/
theorem Path.pieces_join_relative (p : Path) {q : Path} (h : q.isAbsolute = false) :
    (∃ front, p.pieces = front ++ [[]] ∧ (p.join q).pieces = front ++ q.pieces) ∨
      p.pieces ≠ [[]] ∧ (p.join q).pieces = p.pieces ++ q.pieces := by
  rcases p.toList_join_relative h with ⟨hempty | hslash, htext⟩ | ⟨⟨hempty, -⟩, htext⟩
  · refine .inl ⟨[], ?_, ?_⟩
    · rw [pieces, hempty]
      rfl
    · rw [pieces, htext, hempty]
      rfl
  · obtain ⟨front, hfront⟩ := List.getLast?_eq_some_iff.mp hslash
    refine .inl ⟨cut '/' front, ?_, ?_⟩
    · rw [pieces, hfront, cut_append_cons]
      rfl
    · rw [pieces, htext, hfront, List.append_assoc, List.singleton_append, cut_append_cons]
      rfl
  · refine .inr ⟨?_, ?_⟩
    · -- The empty path is the only one with no pieces but an empty one.
      intro hpieces
      have hglue := glue_cut '/' p.text.toList
      rw [show cut '/' p.text.toList = [[]] from hpieces] at hglue
      exact hempty hglue.symm
    · rw [pieces, htext, cut_append_cons]
      rfl

/-- Joining a name adds a piece, or fills an empty one at the end. -/
theorem Path.pieces_join (p : Path) {name : String} (h : PlainName name) :
    (∃ front, p.pieces = front ++ [[]] ∧ (p.join ⟨name⟩).pieces = front ++ [name.toList]) ∨
      p.pieces ≠ [[]] ∧ (p.join ⟨name⟩).pieces = p.pieces ++ [name.toList] := by
  have hname : (⟨name⟩ : Path).pieces = [name.toList] := cut_of_not_mem h.noSlash
  rw [← hname]
  exact p.pieces_join_relative h.isAbsolute

/-- A path that is not absolute is the components of its pieces, and perhaps the dot at its
start. -/
theorem Path.components_relative {p : Path} (h : p.isAbsolute = false) :
    ∃ lead, (lead = [] ∨ lead = [.here]) ∧
      p.components = lead ++ p.pieces.filterMap component? := by
  obtain ⟨first, rest, hp⟩ := p.pieces_eq_cons
  simp only [components, hp, h, Bool.false_eq_true, if_false]
  by_cases hfirst : first = ['.']
  · subst hfirst
    exact ⟨[.here], .inr rfl, rfl⟩
  · refine ⟨[], .inl rfl, ?_⟩
    rw [if_neg hfirst, List.nil_append, List.filterMap_cons]
    cases component? first <;> rfl

/-- **What a relative path adds to another one:** the components of its pieces, and perhaps the dot
at its start. -/
theorem Path.components_join_relative (p : Path) {q : Path} (h : q.isAbsolute = false) :
    ∃ lead, (lead = [] ∨ lead = [.here]) ∧
      (p.join q).components = p.components ++ (lead ++ q.pieces.filterMap component?) := by
  rcases p.pieces_join_relative h with ⟨front, hpieces, hjoined⟩ | ⟨hne, hjoined⟩
  · cases front with
    | nil =>
      -- Nothing stands before the relative path.
      obtain ⟨lead, hlead, hcomponents⟩ := components_relative h
      obtain ⟨first, rest, hq⟩ := q.pieces_eq_cons
      refine ⟨lead, hlead, ?_⟩
      rw [components_eq hpieces, ← hcomponents, components_eq hq, components_eq (hjoined.trans hq)]
      rfl
    | cons first rest =>
      rw [List.cons_append] at hpieces hjoined
      have hne : q.pieces ≠ [] := cut_ne_nil _ _
      have hlead : leadOf first (rest ++ q.pieces) = leadOf first (rest ++ [[]]) :=
        leadOf_eq (by simp [hne])
      refine ⟨[], .inl rfl, ?_⟩
      rw [components_eq hpieces, components_eq hjoined, hlead, List.filterMap_append,
        List.filterMap_append]
      simp [component?_nil]
  · obtain ⟨first, rest, hp⟩ := p.pieces_eq_cons
    rw [hp, List.cons_append] at hjoined
    have hlead : leadOf first (rest ++ q.pieces) = leadOf first rest := by
      refine leadOf_eq ?_
      rintro rfl
      have hrest : rest ≠ [] := by
        rintro rfl
        exact hne hp
      simp [hrest]
    refine ⟨[], .inl rfl, ?_⟩
    rw [components_eq hp, components_eq hjoined, hlead, List.filterMap_append, List.nil_append,
      List.append_assoc]

/-- **A name below a directory is one more component.** -/
theorem Path.components_join (p : Path) {name : String} (h : PlainName name) :
    (p.join ⟨name⟩).components = p.components ++ [.name name] := by
  have hnot : name.toList ≠ ['.'] := by
    intro hdot
    have hdots := h.notDots
    rw [hdot] at hdots
    exact absurd hdots (by decide)
  rcases p.pieces_join h with ⟨front, hpieces, hjoined⟩ | ⟨hne, hjoined⟩
  · -- The path ends in a slash, so the name takes the place of the empty piece behind it.
    cases front with
    | nil =>
      rw [components_eq hpieces, components_eq hjoined, leadOf, leadOf, if_neg h.notEmpty,
        if_neg hnot, h.component?]
      rfl
    | cons first rest =>
      rw [List.cons_append] at hpieces hjoined
      have hlead : leadOf first (rest ++ [name.toList]) = leadOf first (rest ++ [[]]) :=
        leadOf_eq (by simp)
      rw [components_eq hpieces, components_eq hjoined, hlead, List.filterMap_append,
        List.filterMap_append]
      simp [component?_nil, h.component?]
  · obtain ⟨first, rest, hp⟩ := p.pieces_eq_cons
    rw [hp, List.cons_append] at hjoined
    have hlead : leadOf first (rest ++ [name.toList]) = leadOf first rest := by
      refine leadOf_eq ?_
      rintro rfl
      have hrest : rest ≠ [] := by
        rintro rfl
        exact hne hp
      simp [hrest]
    rw [components_eq hp, components_eq hjoined, hlead, List.filterMap_append, List.append_assoc]
    simp [h.component?]

/-! ## Parents -/

theorem exists_redundant (pieces : List (List Char)) :
    ∃ ends, pieces = Path.dropRedundantEnd pieces ++ ends ∧
      ∀ piece ∈ ends, Path.isRedundant piece = true := by
  refine ⟨(pieces.reverse.takeWhile Path.isRedundant).reverse, ?_, ?_⟩
  · rw [Path.dropRedundantEnd, ← List.reverse_append, List.takeWhile_append_dropWhile,
      List.reverse_reverse]
  · intro piece hpiece
    exact List.all_eq_true.mp List.all_takeWhile piece (List.mem_reverse.mp hpiece)

theorem filterMap_dropRedundantEnd (pieces : List (List Char)) :
    (Path.dropRedundantEnd pieces).filterMap Path.component? =
      pieces.filterMap Path.component? := by
  obtain ⟨ends, hpieces, hends⟩ := exists_redundant pieces
  have hnone : ends.filterMap Path.component? = [] := by
    rw [List.filterMap_eq_nil_iff]
    intro piece hpiece
    rw [Path.component?, if_pos (hends piece hpiece)]
  conv => rhs; rw [hpieces, List.filterMap_append, hnone, List.append_nil]

/-- The last piece that is left has a meaning. -/
theorem dropRedundantEnd_concat {pieces front : List (List Char)} {last : List Char}
    (h : Path.dropRedundantEnd pieces = front ++ [last]) : Path.isRedundant last = false := by
  have hreverse : pieces.reverse.dropWhile Path.isRedundant = last :: front.reverse := by
    rw [← List.reverse_reverse (pieces.reverse.dropWhile _)]
    change (Path.dropRedundantEnd pieces).reverse = _
    rw [h, List.reverse_concat]
  have hhead := List.head?_dropWhile_not Path.isRedundant pieces.reverse
  rw [hreverse] at hhead
  simpa using hhead

theorem ne_nil_of_dropRedundantEnd {pieces front : List (List Char)} {last : List Char}
    (h : Path.dropRedundantEnd pieces = front ++ [last]) : pieces ≠ [] := by
  rintro rfl
  exact absurd h (by simp [Path.dropRedundantEnd])

theorem exists_component?_of_not_redundant {piece : List Char}
    (h : Path.isRedundant piece = false) :
    ∃ c, Path.component? piece = some c := by
  rw [Path.component?, if_neg (by rw [h]; decide)]
  split
  · exact ⟨.up, rfl⟩
  · exact ⟨.name _, rfl⟩

theorem length_leadOf {first : List Char} (h : first ≠ []) (rest : List (List Char)) :
    (leadOf first rest).length ≤ 1 := by
  rw [leadOf, if_neg h]
  split
  · exact Nat.le_refl 1
  · cases Path.component? first <;> simp

/-- **A path without components is the empty one.** -/
theorem Path.pieces_of_components {p : Path} (h : p.components = []) : p.pieces = [[]] := by
  obtain ⟨first, rest, hp⟩ := p.pieces_eq_cons
  rw [components_eq hp] at h
  obtain ⟨hlead, -⟩ := List.append_eq_nil_iff.mp h
  unfold leadOf at hlead
  split at hlead
  · rename_i hfirst
    split at hlead
    · rename_i hrest
      rw [hp, hfirst, hrest]
    · exact absurd hlead (by simp)
  · rename_i hfirst
    split at hlead
    · exact absurd hlead (by simp)
    · -- A first piece that is neither empty nor a dot is a component.
      rename_i hdot
      obtain ⟨c, hc⟩ := exists_component?_of_not_redundant
        (show isRedundant first = false by simp [isRedundant, hfirst, hdot])
      rw [hc] at hlead
      exact absurd hlead (by simp)

theorem mem_dropRedundantEnd {pieces : List (List Char)} {piece : List Char}
    (h : piece ∈ Path.dropRedundantEnd pieces) : piece ∈ pieces :=
  List.mem_reverse.mp ((List.dropWhile_sublist _).subset (List.mem_reverse.mp h))

theorem Path.pieces_ofPieces {first : List Char} {rest : List (List Char)}
    (h : ∀ piece ∈ first :: rest, '/' ∉ piece) :
    (ofPieces (first :: rest)).pieces = first :: rest := by
  rw [pieces, ofPieces, String.toList_ofList, cut_glue (List.cons_ne_nil _ _) h]

/-- **The ways to a parent.** It is the empty path if the path is a single name. Otherwise its
pieces are those of the path up to the last that has a meaning, but for that one and what has none
before it; only the root has an empty piece more. -/
theorem Path.parent?_cases {p q : Path} {first : List Char} {rest : List (List Char)}
    (hp : p.pieces = first :: rest) (h : p.parent? = some q) :
    (first ≠ [] ∧ dropRedundantEnd rest = [] ∧ q = ⟨""⟩) ∨
      ∃ front last rest', dropRedundantEnd rest = front ++ [last] ∧ isRedundant last = false ∧
        q.pieces = first :: rest' ∧
        ((first = [] → rest' ≠ []) ∧ rest' = dropRedundantEnd front ∨
          first = [] ∧ rest' = [[]] ∧ dropRedundantEnd front = []) := by
  have hslash : ∀ piece ∈ first :: rest, '/' ∉ piece :=
    fun piece hpiece => not_mem_of_mem_cut (hp ▸ hpiece)
  unfold parent? at h
  simp only [hp] at h
  split at h
  · rename_i hbody
    split at h
    · exact absurd h (by simp)
    · rename_i hfirst
      exact .inl ⟨by simpa using hfirst, hbody, (Option.some.inj h).symm⟩
  · rename_i hbody
    obtain ⟨front, last, hconcat⟩ :=
      (List.eq_nil_or_concat (dropRedundantEnd rest)).resolve_left hbody
    rw [List.concat_eq_append] at hconcat
    -- What is kept in front of the last component is still free of slashes, so that writing it out
    -- as a path and cutting it again gives the same pieces.
    have hkept : ∀ piece ∈ first :: dropRedundantEnd front, '/' ∉ piece := by
      intro piece hpiece
      rcases List.mem_cons.mp hpiece with rfl | hpiece
      · exact hslash _ List.mem_cons_self
      · refine hslash piece (List.mem_cons_of_mem _ (mem_dropRedundantEnd ?_))
        rw [hconcat]
        exact List.mem_append_left _ (mem_dropRedundantEnd hpiece)
    rw [hconcat, List.dropLast_concat] at h
    refine .inr ⟨front, last, ?_⟩
    split at h
    · rename_i hfront
      split at h
      · rename_i hfirst
        obtain rfl := Option.some.inj h
        obtain rfl : first = [] := by simpa using hfirst
        exact ⟨[[]], hconcat, dropRedundantEnd_concat hconcat, rfl, .inr ⟨rfl, rfl, hfront⟩⟩
      · rename_i hfirst
        obtain rfl := Option.some.inj h
        rw [hfront] at hkept
        exact ⟨[], hconcat, dropRedundantEnd_concat hconcat, pieces_ofPieces hkept,
          .inl ⟨fun hnil => absurd (by rw [hnil]; rfl) hfirst, hfront.symm⟩⟩
    · rename_i hfront
      obtain rfl := Option.some.inj h
      exact ⟨dropRedundantEnd front, hconcat, dropRedundantEnd_concat hconcat,
        pieces_ofPieces hkept,
        .inl ⟨fun _ => hfront, rfl⟩⟩

/-- **A parent has all components but the last.** -/
theorem Path.components_parent? {p q : Path} (h : p.parent? = some q) :
    q.components = p.components.dropLast := by
  obtain ⟨first, rest, hp⟩ := p.pieces_eq_cons
  rw [components_eq hp, ← filterMap_dropRedundantEnd rest]
  rcases parent?_cases hp h with
    ⟨hfirst, hbody, rfl⟩ | ⟨front, last, rest', hconcat, hlast, hq, hrest'⟩
  · -- There is one component at most.
    have hlength := length_leadOf hfirst rest
    rw [hbody, List.filterMap_nil, List.append_nil]
    exact (List.length_eq_zero_iff.mp (by rw [List.length_dropLast]; omega)).symm
  · obtain ⟨c, hc⟩ := exists_component?_of_not_redundant hlast
    have hrest := ne_nil_of_dropRedundantEnd hconcat
    have hlead : leadOf first rest' = leadOf first rest := by
      refine leadOf_eq fun hfirst => ?_
      rcases hrest' with ⟨hne, -⟩ | ⟨-, rfl, -⟩
      · simp [hne hfirst, hrest]
      · simp [hrest]
    have hbody : rest'.filterMap component? = front.filterMap component? := by
      rw [← filterMap_dropRedundantEnd front]
      rcases hrest' with ⟨-, rfl⟩ | ⟨-, rfl, hnil⟩
      · rfl
      · rw [hnil]
        rfl
    rw [components_eq hq, hlead, hbody, hconcat, List.filterMap_append, List.filterMap_cons_some hc,
      List.filterMap_nil, ← List.append_assoc, List.dropLast_concat]

end AltRender.Disk

import AltRender.Proofs.Glob.Literal

/-!
# `Proofs/Glob/Following` — where components that stand for themselves lead

A search puts names behind the path it has reached (`next`). It does so text by text, and so a path
that is not empty stays in front of what is found from it on, as it is spelled (`Firm.follow`). Only
the directory that searches start from is not shown: the names are all there is of what is found in
it.

A path that stands for itself is followed to a spelling of it (`leads_follow`), and from there on
what is found is what the rest of the pattern finds (`expand_literal`).

`Leads` says that a path as the walk of a search spells it comes from the root by some names;
joining, stripping and looking up are each stated for such paths, so that no later proof goes back
to the pieces.
-/

set_option autoImplicit false

namespace AltRender.Glob

open AltRender.Disk AltRender.Text

variable {p q root : Path} {name : String} {names : List String}

/-! ## Names behind a path -/

/-- A path that is shown in front of what is found from it on. -/
structure Firm (p : Path) : Prop where
  nonempty : p.text.toList ≠ []
  elsewhere : isStart p = false

theorem Firm.base (h : Firm p) : base p = p := by
  rw [Glob.base, h.elsewhere]
  rfl

theorem isStart_iff : isStart p = true ↔ p.components = [.here] := by
  simp [isStart]

theorem Firm.join (h : Firm p) (hq : q.isAbsolute = false) : Firm (p.join q) := by
  refine ⟨?_, ?_⟩
  · rw [Path.toList_join_gap p hq]
    exact List.append_ne_nil_of_left_ne_nil h.nonempty _
  · rw [Bool.eq_false_iff, ne_eq, isStart_iff, Path.components_join_of_ne_nil h.nonempty hq]
    intro hhere
    rcases List.append_eq_singleton_iff.mp hhere with ⟨hnil, -⟩ | ⟨hone, -⟩
    · exact Path.components_ne_nil h.nonempty hnil
    · exact absurd (isStart_iff.mpr hone) (by simp [h.elsewhere])

theorem relative_of_noSlash (h : '/' ∉ name.toList) : (⟨name⟩ : Path).isAbsolute = false := by
  rw [Path.isAbsolute, beq_eq_false_iff_ne]
  exact fun hhead => h (List.mem_of_head? hhead)

theorem pieces_of_noSlash (h : '/' ∉ name.toList) : (⟨name⟩ : Path).pieces = [name.toList] :=
  cut_of_not_mem h

theorem firm_of_piece (h : '/' ∉ name.toList) (hmeaning : Path.isRedundant name.toList = false) :
    Firm ⟨name⟩ := by
  simp only [Path.isRedundant, Bool.or_eq_false_iff, beq_eq_false_iff_ne] at hmeaning
  refine ⟨hmeaning.1, ?_⟩
  rw [Bool.eq_false_iff, ne_eq, isStart_iff, Path.components_eq (pieces_of_noSlash h), leadOf,
    if_neg hmeaning.1, if_neg hmeaning.2]
  unfold Path.component?
  split
  · simp
  · split <;> simp

theorem map_ofList_toList (names : List String) :
    (names.map String.toList).map String.ofList = names := by
  rw [List.map_map,
    show String.ofList ∘ String.toList = id from funext fun _ => String.ofList_toList, List.map_id]

theorem map_toList_ofList (pieces : List (List Char)) :
    (pieces.map String.ofList).map String.toList = pieces := by
  rw [List.map_map,
    show String.toList ∘ String.ofList = id from funext fun _ => String.toList_ofList, List.map_id]

theorem noSlash_ofList {pieces : List (List Char)} (h : ∀ piece ∈ pieces, '/' ∉ piece) :
    ∀ name ∈ pieces.map String.ofList, '/' ∉ name.toList := by
  intro name hname
  obtain ⟨piece, hpiece, rfl⟩ := List.mem_map.mp hname
  rw [String.toList_ofList]
  exact h piece hpiece

theorem noSlash_of_mem_pieces (text : String) :
    ∀ name ∈ (cut '/' text.toList).map String.ofList, '/' ∉ name.toList :=
  noSlash_ofList fun _ => not_mem_of_mem_cut

/-- A name behind a path that a search has reached. -/
def next (p : Path) (name : String) : Path :=
  (base p).join ⟨name⟩

/-- Names behind a path that a search has reached, one after the other. -/
def follow (p : Path) (names : List String) : Path :=
  names.foldl next p

theorem joinNames_cons (p : Path) (name : String) (names : List String) :
    joinNames p (name :: names) = joinNames (p.join ⟨name⟩) names := rfl

theorem Firm.follow (h : Firm p) (hnames : ∀ name ∈ names, '/' ∉ name.toList) :
    follow p names = joinNames p names := by
  induction names generalizing p with
  | nil => rfl
  | cons name names ih =>
    obtain ⟨hname, hnames⟩ := List.forall_mem_cons.mp hnames
    have hnext : next p name = p.join ⟨name⟩ := by rw [next, h.base]
    rw [joinNames_cons, ← ih (h.join (relative_of_noSlash hname)) hnames, ← hnext]
    rfl

/-- From the directory that searches start from, the first name is a path of its own. -/
theorem follow_start (hp : isStart p = true) (hname : '/' ∉ name.toList)
    (hmeaning : Path.isRedundant name.toList = false) (hnames : ∀ name ∈ names, '/' ∉ name.toList) :
    follow p (name :: names) = joinNames ⟨""⟩ (name :: names) := by
  have hnext : next p name = (⟨""⟩ : Path).join ⟨name⟩ := by rw [next, base, if_pos hp]
  have hfirm : Firm (next p name) := by
    rw [hnext, Path.join_empty_left (relative_of_noSlash hname)]
    exact firm_of_piece hname hmeaning
  rw [joinNames_cons, ← hnext, ← hfirm.follow hnames]
  rfl

section Joined

theorem steps_joinNames (p : Path) (hnames : ∀ name ∈ names, '/' ∉ name.toList) :
    (joinNames p names).steps = p.steps ++ (names.map String.toList).filter fun piece =>
      !piece.isEmpty := by
  induction names generalizing p with
  | nil => exact (List.append_nil _).symm
  | cons name names ih =>
    obtain ⟨hname, hnames⟩ := List.forall_mem_cons.mp hnames
    rw [joinNames_cons, ih _ hnames, Path.steps_join p (relative_of_noSlash hname), Path.steps,
      Path.steps, pieces_of_noSlash hname, List.append_assoc, ← List.filter_append]
    rfl

theorem isAbsolute_joinNames (p : Path) (hnames : ∀ name ∈ names, '/' ∉ name.toList) :
    (joinNames p names).isAbsolute = p.isAbsolute := by
  induction names generalizing p with
  | nil => rfl
  | cons name names ih =>
    obtain ⟨hname, hnames⟩ := List.forall_mem_cons.mp hnames
    rw [joinNames_cons, ih _ hnames, Path.isAbsolute_join_relative p (relative_of_noSlash hname)]

theorem Firm.joinNames (h : Firm p) (hnames : ∀ name ∈ names, '/' ∉ name.toList) :
    Firm (joinNames p names) ∧
      (Glob.joinNames p names).components =
        p.components ++ (names.map String.toList).filterMap Path.component? := by
  induction names generalizing p with
  | nil => exact ⟨h, (List.append_nil _).symm⟩
  | cons name names ih =>
    obtain ⟨hname, hnames⟩ := List.forall_mem_cons.mp hnames
    have hrelative := relative_of_noSlash hname
    obtain ⟨hfirm, hcomponents⟩ := ih (h.join hrelative) hnames
    refine ⟨hfirm, ?_⟩
    rw [joinNames_cons, hcomponents, Path.components_join_of_ne_nil h.nonempty hrelative,
      pieces_of_noSlash hname, List.append_assoc, ← List.filterMap_append]
    rfl

/-- Names that are not empty are joined with a slash between any two. -/
theorem toList_joinNames (hgap : p.gap = ['/'])
    (hnames : ∀ name ∈ names, '/' ∉ name.toList ∧ name.toList ≠ []) (hne : names ≠ []) :
    (joinNames p names).text.toList =
      p.text.toList ++ '/' :: glue '/' (names.map String.toList) := by
  induction names generalizing p with
  | nil => exact absurd rfl hne
  | cons name names ih =>
    obtain ⟨⟨hname, hnonempty⟩, hnames⟩ := List.forall_mem_cons.mp hnames
    have hrelative := relative_of_noSlash hname
    have hjoined : (p.join ⟨name⟩).text.toList = p.text.toList ++ '/' :: name.toList := by
      rw [Path.toList_join_gap p hrelative, hgap]
      rfl
    have hgap' : (p.join ⟨name⟩).gap = ['/'] := by
      rw [Path.gap_join p hrelative, Path.gap, if_neg]
      exact not_or.mpr ⟨hnonempty, fun hlast => hname (List.mem_of_getLast? hlast)⟩
    rw [joinNames_cons]
    cases names with
    | nil => exact hjoined
    | cons second names =>
      rw [ih hgap' hnames (List.cons_ne_nil _ _), hjoined]
      simp [glue]

/-- **Names joined behind a path are a path behind it.** -/
theorem joinNames_eq (p : Path) (hnames : ∀ name ∈ names, '/' ∉ name.toList) (hne : names ≠ []) :
    joinNames p names = p.join (joinNames ⟨""⟩ names) := by
  obtain ⟨name, names, rfl⟩ := List.exists_cons_of_ne_nil hne
  obtain ⟨hname, hrest⟩ := List.forall_mem_cons.mp hnames
  have hrelative := relative_of_noSlash hname
  rw [joinNames_cons, joinNames_cons, Path.join_empty_left hrelative]
  clear hne hnames
  -- What has been joined already is a relative path, and the next name can be joined to it first.
  generalize (⟨name⟩ : Path) = q at hrelative
  induction names generalizing q with
  | nil => rfl
  | cons second names ih =>
    obtain ⟨hsecond, hrest⟩ := List.forall_mem_cons.mp hrest
    have hsecond := relative_of_noSlash hsecond
    rw [joinNames_cons, joinNames_cons, Path.join_assoc p hrelative hsecond]
    exact ih hrest _ ((Path.isAbsolute_join_relative q hsecond).trans hrelative)

end Joined

/-- The pieces of a path without empty ones, joined again, are the path. -/
theorem joinNames_pieces {text : String} (h : [] ∉ cut '/' text.toList) :
    joinNames ⟨""⟩ ((cut '/' text.toList).map String.ofList) = ⟨text⟩ := by
  have hglue := glue_cut '/' text.toList
  obtain ⟨first, rest, hcut⟩ := (⟨text⟩ : Path).pieces_eq_cons
  rw [show cut '/' text.toList = first :: rest from hcut] at h hglue ⊢
  obtain ⟨hfirst, hrest⟩ := not_or.mp (mt List.mem_cons.mpr h)
  have hslash : ∀ piece ∈ first :: rest, '/' ∉ piece :=
    fun piece hpiece => not_mem_of_mem_cut (hcut ▸ hpiece)
  have hnames : ∀ name ∈ rest.map String.ofList, '/' ∉ name.toList ∧ name.toList ≠ [] := by
    intro name hname
    obtain ⟨piece, hpiece, rfl⟩ := List.mem_map.mp hname
    rw [String.toList_ofList]
    exact ⟨hslash piece (List.mem_cons_of_mem _ hpiece), fun hnil => hrest (hnil ▸ hpiece)⟩
  have hrelative : (⟨String.ofList first⟩ : Path).isAbsolute = false :=
    relative_of_noSlash (by rw [String.toList_ofList]; exact hslash first List.mem_cons_self)
  have hgap : (⟨String.ofList first⟩ : Path).gap = ['/'] := by
    rw [Path.gap, String.toList_ofList, if_neg]
    exact not_or.mpr ⟨Ne.symm hfirst,
      fun hlast => hslash first List.mem_cons_self (List.mem_of_getLast? hlast)⟩
  refine Path.eq_of_toList ?_
  rw [List.map_cons, joinNames_cons, Path.join_empty_left hrelative]
  cases rest with
  | nil => rw [← hglue]; exact String.toList_ofList
  | cons second rest =>
    have htext := toList_joinNames hgap hnames (by simp)
    rw [String.toList_ofList, map_toList_ofList] at htext
    exact htext.trans hglue

theorem component?_ne_here {text : List Char} : Path.component? text ≠ some .here := by
  unfold Path.component?
  split
  · exact Option.some_ne_none _ |>.symm
  · split <;> simp

/-- The pieces of a spelling of the directory that searches start from: a dot, and others without
meaning. -/
theorem exists_pieces_of_isStart (h : isStart p = true) :
    ∃ rest, p.pieces = ['.'] :: rest ∧ ∀ piece ∈ rest, Path.isRedundant piece = true := by
  obtain ⟨first, rest, hpieces⟩ := p.pieces_eq_cons
  rw [isStart_iff, Path.components_eq hpieces, leadOf] at h
  split at h
  · split at h
    · rename_i hrest
      subst hrest
      exact absurd h (by simp)
    · exact absurd (List.cons.inj h).1 (by simp)
  · rename_i hne
    split at h
    · rename_i hdot
      -- A piece with a meaning behind the dot would be a component of its own.
      refine ⟨rest, hdot ▸ hpieces, fun piece hpiece => ?_⟩
      rw [← Bool.not_eq_false]
      intro hmeaning
      obtain ⟨c, hc⟩ := exists_component?_of_not_redundant hmeaning
      have hmem : c ∈ rest.filterMap Path.component? := List.mem_filterMap.mpr ⟨piece, hpiece, hc⟩
      rw [show rest.filterMap Path.component? = [] from (List.cons.inj h).2] at hmem
      exact absurd hmem List.not_mem_nil
    · rename_i hdot
      obtain ⟨c, hc⟩ := exists_component?_of_not_redundant
        (show Path.isRedundant first = false by simp [Path.isRedundant, hne, hdot])
      rw [hc] at h
      obtain rfl : c = .here := (List.cons.inj h).1
      exact absurd hc component?_ne_here

theorem isRedundant_of_isStart (h : isStart p = true) {piece : List Char}
    (hpiece : piece ∈ p.pieces) : Path.isRedundant piece = true := by
  obtain ⟨rest, hpieces, hrest⟩ := exists_pieces_of_isStart h
  rw [hpieces] at hpiece
  rcases List.mem_cons.mp hpiece with rfl | hpiece
  · decide
  · exact hrest piece hpiece

/-- The directory that searches start from is not in front of what is found in it. -/
theorem stripLeading?_start {first : List Char} {rest : List (List Char)}
    (hp : p.pieces = first :: rest) (hfirst : Path.isRedundant first = false)
    (hroot : isStart root = true) : p.stripLeading? root = none := by
  obtain ⟨c, hc⟩ := exists_component?_of_not_redundant hfirst
  have hhere : c ≠ .here := fun hhere => component?_ne_here (hhere ▸ hc)
  simp only [Path.isRedundant, Bool.or_eq_false_iff, beq_eq_false_iff_ne] at hfirst
  rw [Path.stripLeading?, isStart_iff.mp hroot, Path.components_eq hp, leadOf, if_neg hfirst.1,
    if_neg hfirst.2, hc]
  simp [Ne.symm hhere]

/-! ## Searching -/

theorem literalPath?_cases (d : Disk) (p : Path) (name : String) :
    literalPath? d p name = none ∨ literalPath? d p name = some (next p name) := by
  unfold literalPath?
  simp only
  split
  · split
    · exact .inr rfl
    · exact .inl rfl
  · split
    · exact .inr rfl
    · exact .inl rfl

theorem expand_cons_literal (d : Disk) (text : List Char) (rest : List Pattern) (p : Path) :
    expand d (literal text :: rest) p =
      match literalPath? d p (String.ofList text) with
      | some next => expand d rest next
      | none => [] := by
  rw [expand.eq_def]
  cases hpath : literalPath? d p (String.ofList text) <;> simp only [literal?_literal, hpath]

/-- **Components that stand for themselves lead to one path at most.** -/
theorem expand_literal (d : Disk) (texts : List (List Char)) (rest : List Pattern) (p : Path) :
    expand d (texts.map literal ++ rest) p = [] ∨
      expand d (texts.map literal ++ rest) p =
        expand d rest (follow p (texts.map String.ofList)) := by
  induction texts generalizing p with
  | nil => exact .inr rfl
  | cons text texts ih =>
    rw [List.map_cons, List.cons_append, expand_cons_literal]
    rcases literalPath?_cases d p (String.ofList text) with hnone | hsome
    · rw [hnone]
      exact .inl rfl
    · rw [hsome]
      exact ih _

/-! ## The root -/

/-- A search for a root comes out at a path: one that is shown in front of what is found from it on
and leads where the root does, or the directory that searches start from. -/
inductive Leads (root : Path) : Path → Prop where
  | along {p : Path} (firm : Firm p) (components : p.components = root.components)
      (steps : p.steps = root.steps) (isAbsolute : p.isAbsolute = root.isAbsolute) : Leads root p
  | start (isStart : isStart root = true) : Leads root ⟨"."⟩

/-- Whether a path is a plain spelling of the directory that searches start from: dots, with one
slash between any two of them and perhaps one behind them. -/
def Rests (root : Path) : Prop :=
  isStart root = true ∧ [] ∉ root.trunk

theorem rests_start : Rests ⟨"."⟩ :=
  ⟨by decide, by decide⟩

/-- From where searches start, dots lead nowhere else. -/
theorem follow_dots {names : List String} (h : ∀ name ∈ names, name = ".") :
    follow ⟨"."⟩ names = ⟨"."⟩ := by
  induction names with
  | nil => rfl
  | cons name names ih =>
    obtain ⟨rfl, hnames⟩ := List.forall_mem_cons.mp h
    exact ih hnames

/-- A path with pieces behind it is a spelling of the root if it is one with them read. -/
theorem Firm.leads {pieces : List (List Char)} (hp : Firm p)
    (hslash : ∀ piece ∈ pieces, '/' ∉ piece)
    (hcomponents : root.components = p.components ++ pieces.filterMap Path.component?)
    (hsteps : root.steps = p.steps ++ pieces.filter fun piece => !piece.isEmpty)
    (habs : root.isAbsolute = p.isAbsolute) :
    Leads root (Glob.joinNames p (pieces.map String.ofList)) := by
  have hnames := noSlash_ofList hslash
  obtain ⟨hfirm, hfollowed⟩ := hp.joinNames hnames
  refine .along hfirm ?_ ?_ ?_
  · rw [hfollowed, map_toList_ofList, hcomponents]
  · rw [steps_joinNames _ hnames, map_toList_ofList, hsteps]
  · rw [isAbsolute_joinNames _ hnames, habs]

/-- The pieces of a root of dots lead nowhere else. -/
theorem follow_trunk (h : Rests root) : follow ⟨"."⟩ (root.trunk.map String.ofList) = ⟨"."⟩ := by
  refine follow_dots fun name hname => ?_
  obtain ⟨piece, hpiece, rfl⟩ := List.mem_map.mp hname
  have hredundant := isRedundant_of_isStart h.1 (root.trunk_sublist.subset hpiece)
  have hne : piece ≠ [] := fun hnil => h.2 (hnil ▸ hpiece)
  have hdot : piece = ['.'] := by simpa [Path.isRedundant, hne] using hredundant
  rw [hdot]

/-- **A root that stands for itself is followed to a spelling of it,** if it does not begin with a
dot and go on. -/
theorem leads_follow {first : List Char} {front rest : List (List Char)} (hrest : rest ≠ [])
    (hcomponents :
      root.components = leadOf first (front ++ rest) ++ front.filterMap Path.component?)
    (habs : root.isAbsolute = true ↔ first = [])
    (hsteps : (first :: front).filter (fun piece => !piece.isEmpty) = root.steps)
    (htrunk : root.trunk = first :: front)
    (hdot : Rests root ∨ root.components.head? ≠ some .here) :
    Leads root (follow (scopeOf root)
      ((if root.isAbsolute then front else first :: front).map String.ofList)) := by
  have hslash : ∀ piece ∈ first :: front, '/' ∉ piece := fun piece hpiece =>
    not_mem_of_mem_cut (root.trunk_sublist.subset (htrunk ▸ hpiece))
  obtain ⟨hname, hfront⟩ := List.forall_mem_cons.mp hslash
  have hnames := noSlash_ofList hfront
  -- An absolute root is followed from the top, so that its first piece, which is empty, is no name
  -- to follow; a relative one starts with that piece.
  cases habsolute : root.isAbsolute with
  | true =>
    obtain rfl := habs.mp habsolute
    have htop : Firm ⟨"/"⟩ := ⟨by decide, by decide⟩
    rw [if_pos rfl, scopeOf, if_pos habsolute, htop.follow hnames]
    refine htop.leads hfront ?_ hsteps.symm habsolute
    rw [hcomponents, leadOf, if_pos rfl, if_neg (by simp [hrest])]
    rfl
  | false =>
    have hfirst : first ≠ [] := fun hnil => by simp [habs.mpr hnil] at habsolute
    rw [if_neg (by simp), scopeOf, if_neg (by simp [habsolute])]
    by_cases hhere : first = ['.']
    · -- The root is dots, and nothing goes on behind them.
      have hroot : Rests root :=
        hdot.resolve_right fun hhead => hhead (by rw [hcomponents, hhere]; rfl)
      rw [← htrunk, follow_trunk hroot]
      exact .start hroot.1
    · have hmeaning : Path.isRedundant first = false := by simp [Path.isRedundant, hfirst, hhere]
      rw [← String.toList_ofList (l := first)] at hname hmeaning
      have hrelative := relative_of_noSlash hname
      rw [List.map_cons, follow_start (by decide) hname hmeaning hnames, joinNames_cons,
        Path.join_empty_left hrelative]
      refine (firm_of_piece hname hmeaning).leads hfront ?_ ?_ (habsolute.trans hrelative.symm)
      · rw [Path.components_eq (pieces_of_noSlash hname), String.toList_ofList, hcomponents,
          List.filterMap_nil, List.append_nil, leadOf_eq fun hnil => absurd hnil hfirst]
      · rw [← hsteps, Path.steps, pieces_of_noSlash hname, String.toList_ofList,
          ← List.filter_append, List.singleton_append]

end AltRender.Glob

import AltRender.Proofs.Disk.Contents
import AltRender.Proofs.Glob.Following
import AltRender.Proofs.Glob.Matching
import AltRender.Proofs.Vault
import Mathlib.Algebra.Ring.Nat

/-!
# `Proofs/Glob/Trail` — what is found lies below

From a path on, a search puts names behind it, one after the other: a *trail*. Where no component
goes up, neither does a trail, and a few of its names at most have no meaning, not more than the
pattern has components (`exists_trail`). So what is found lies below the path, by the names with a
meaning (`Trail.destination`), and is not much longer than these.

A search has steps of three kinds, one for each kind of component: a component that stands for
itself is looked up, one with a class or a star is matched against the names that are listed, and
two stars go down. In each of them the next path is the one before with one more name (`next`), so
that the induction is on the recursion of `expand`. Where searches start there is an exception that
all this has to carry along: a path that is a dot alone is not shown in front of what is found from
it (`Shown`).
-/

set_option autoImplicit false

namespace AltRender.Glob

open AltRender.Disk AltRender.Text

variable {d : Disk} {p path : Path} {l : Location} {name : String} {names : List String}

/-! ## Names -/

/-- Whether a name stays where it is: it is empty or a dot. -/
def isStill (name : String) : Bool :=
  Path.isRedundant name.toList

theorem isStill_iff : isStill name = true ↔ name = "" ∨ name = "." := by
  rw [isStill, Path.isRedundant, Bool.or_eq_true, beq_iff_eq, beq_iff_eq, String.toList_eq_nil_iff]
  exact or_congr_right (@String.toList_inj name ".")

theorem isStill_of_plain (h : PlainName name) : isStill name = false := by
  have hdots := h.notDots
  simp only [isDots, Bool.or_eq_false_iff, beq_eq_false_iff_ne] at hdots
  simp [isStill, Path.isRedundant, h.notEmpty, hdots.1]

/-- The names with a meaning. -/
def meaning (names : List String) : List String :=
  names.filter fun name => !isStill name

theorem meaning_of_plain (h : ∀ name ∈ names, PlainName name) : meaning names = names :=
  List.filter_eq_self.mpr fun name hname => by rw [isStill_of_plain (h name hname)]; rfl

theorem meaning_dropWhile (names : List String) :
    meaning (names.dropWhile (· == ".")) = meaning names := by
  induction names with
  | nil => rfl
  | cons name names ih =>
    by_cases hdot : name = "."
    · subst hdot
      rw [List.dropWhile_cons_of_pos (by rfl), ih]
      rfl
    · rw [List.dropWhile_cons_of_neg (by simpa using hdot)]

theorem filterMap_component?_names (h : ".." ∉ names) :
    (names.map String.toList).filterMap Path.component? = (meaning names).map Component.name := by
  have hup : ['.', '.'] ∉ names.map String.toList := by
    intro hmem
    obtain ⟨name, hname, hdots⟩ := List.mem_map.mp hmem
    exact h ((@String.toList_inj name "..").mp hdots ▸ hname)
  rw [Vault.filterMap_component? hup, List.filter_map, map_ofList_toList]
  rfl

/-- What names take of a path, with a slash for each. -/
def span (names : List String) : Nat :=
  (names.map fun name => byteLength name.toList + 1).sum

theorem span_cons (name : String) (names : List String) :
    span (name :: names) = byteLength name.toList + 1 + span names :=
  rfl

theorem span_append (names names' : List String) :
    span (names ++ names') = span names + span names' := by
  rw [span, List.map_append, List.sum_append]
  rfl

/-- A name without meaning takes two bytes at most. -/
theorem span_le (names : List String) :
    span names ≤ span (meaning names) + 2 * (names.filter isStill).length := by
  induction names with
  | nil => exact Nat.le_refl 0
  | cons name names ih =>
    rw [span_cons, meaning]
    cases hstill : isStill name with
    | true =>
      have hshort : byteLength name.toList ≤ 1 := by
        rcases isStill_iff.mp hstill with rfl | rfl <;> decide
      rw [List.filter_cons_of_neg (by simp [hstill]),
        List.filter_cons_of_pos (by simpa using hstill), List.length_cons]
      rw [meaning] at ih
      omega
    | false =>
      rw [List.filter_cons_of_pos (by simp [hstill]), List.filter_cons_of_neg (by simp [hstill]),
        span_cons]
      rw [meaning] at ih
      omega

/-! ## One name further -/

/-- A path that a search can have reached: one that is shown in front of what is found from it on,
or where searches start. -/
def Shown (p : Path) : Prop :=
  Firm p ∨ p = ⟨"."⟩

theorem next_start (h : '/' ∉ name.toList) : next ⟨"."⟩ name = ⟨name⟩ := by
  rw [next, show base ⟨"."⟩ = ⟨""⟩ from by decide, Path.join_empty_left (relative_of_noSlash h)]

theorem Firm.next (h : Firm p) (hname : '/' ∉ name.toList) : Firm (next p name) := by
  rw [Glob.next, h.base]
  exact h.join (relative_of_noSlash hname)

theorem Firm.ne_start (h : Firm p) : p ≠ ⟨"."⟩ := by
  rintro rfl
  exact absurd h.elsewhere (by decide)

theorem Shown.next (h : Shown p) (hname : '/' ∉ name.toList) (hopens : p = ⟨"."⟩ → name ≠ "") :
    Shown (next p name) := by
  rcases h with hfirm | rfl
  · exact .inl (hfirm.next hname)
  · rw [next_start hname]
    by_cases hdot : name = "."
    · exact .inr (congrArg _ hdot)
    · refine .inl (firm_of_piece hname (Bool.eq_false_iff.mpr fun hstill => ?_))
      exact (isStill_iff.mp hstill).elim (hopens rfl) hdot

theorem byteLength_next (p : Path) (hname : '/' ∉ name.toList) :
    byteLength (next p name).text.toList ≤
      byteLength p.text.toList + byteLength name.toList + 1 := by
  have hbase : byteLength (base p).text.toList ≤ byteLength p.text.toList := by
    unfold base
    split
    · exact Nat.zero_le _
    · exact Nat.le_refl _
  have hjoin : byteLength (next p name).text.toList ≤
    byteLength (base p).text.toList + byteLength name.toList + 1 :=
    Path.byteLength_join_le (base p) (relative_of_noSlash hname)
  omega

theorem follow_cons (p : Path) (name : String) (names : List String) :
    follow p (name :: names) = follow (next p name) names := rfl

theorem follow_append (p : Path) (names names' : List String) :
    follow p (names ++ names') = follow (follow p names) names' :=
  List.foldl_append

/-- From where searches start, dots lead nowhere. -/
theorem follow_dropWhile (names : List String) :
    follow ⟨"."⟩ (names.dropWhile (· == ".")) = follow ⟨"."⟩ names := by
  induction names with
  | nil => rfl
  | cons name names ih =>
    by_cases hdot : name = "."
    · subst hdot
      rw [List.dropWhile_cons_of_pos (by rfl), ih, follow_cons, next_start (by decide)]
    · rw [List.dropWhile_cons_of_neg (by simpa using hdot)]

/-- Where searches start is where relative paths start. -/
theorem start_of_approach (hroot : isStart p = true) (h : d.approach p = .ok l) : l = d.start := by
  obtain ⟨rest, hpieces, hrest⟩ := exists_pieces_of_isStart hroot
  have hrelative : p.isAbsolute = false := by
    rw [Bool.eq_false_iff]
    exact fun habs => absurd (Path.first_of_isAbsolute hpieces habs) (by simp)
  have hsteps : p.steps = ['.'] :: rest.filter (fun piece => !piece.isEmpty) := by
    rw [Path.steps, hpieces, List.filter_cons_of_pos (by simp)]
  rw [approach_eq, hrelative, if_neg Bool.false_ne_true, hsteps] at h
  obtain ⟨k, hstep, -⟩ := walk_cons h
  refine Except.ok.inj
    (h.symm.trans (walk_here (isDirectoryAt_of_step hstep) fun piece hpiece => ?_))
  rcases List.mem_cons.mp hpiece with rfl | hpiece
  · rfl
  · obtain ⟨hmem, hne⟩ := List.mem_filter.mp hpiece
    have hredundant := hrest piece hmem
    simp_all [Path.isRedundant]

/-- Behind a path that a search has reached, names are joined to what stands before them. -/
theorem joinNames_base (hp : Shown p) (hplain : ∀ n ∈ name :: names, PlainName n) :
    joinNames (base p) (name :: names) = follow p (name :: names) := by
  have hslash : ∀ n ∈ name :: names, '/' ∉ n.toList := fun n hn => (hplain n hn).noSlash
  rcases hp with hfirm | rfl
  · rw [hfirm.base, hfirm.follow hslash]
  · obtain ⟨hname, hnames⟩ := List.forall_mem_cons.mp hslash
    exact (follow_start (by decide) hname
      (isStill_of_plain (hplain name List.mem_cons_self)) hnames).symm

/-! ## Trails -/

/-- Names that a search puts behind a path: none of them goes up, no more than a number of them are
without meaning, and where searches start the first of them that is more than a dot is not empty. -/
structure Trail (p : Path) (n : Nat) (names : List String) : Prop where
  noSlash : ∀ name ∈ names, '/' ∉ name.toList
  noUp : ".." ∉ names
  few : (names.filter isStill).length ≤ n
  opens : p = ⟨"."⟩ → (names.dropWhile (· == ".")).head? ≠ some ""

namespace Trail

variable {n m : Nat} {names' : List String}

theorem nil (p : Path) : Trail p 0 [] :=
  ⟨by simp, by simp, Nat.le_refl 0, by simp⟩

theorem mono (h : Trail p n names) (hnm : n ≤ m) : Trail p m names :=
  ⟨h.noSlash, h.noUp, Nat.le_trans h.few hnm, h.opens⟩

theorem append (h : Trail p m names) (h' : Trail (follow p names) n names') :
    Trail p (m + n) (names ++ names') where
  noSlash := List.forall_mem_append.mpr ⟨h.noSlash, h'.noSlash⟩
  noUp := fun hmem => (List.mem_append.mp hmem).elim h.noUp h'.noUp
  few := by
    rw [List.filter_append, List.length_append]
    exact Nat.add_le_add h.few h'.few
  opens := by
    rintro rfl
    rw [List.dropWhile_append]
    split
    · -- As long as there are only dots, the search stays where it starts.
      rename_i hdots
      refine h'.opens ?_
      rw [← follow_dropWhile, List.isEmpty_iff.mp hdots]
      rfl
    · rename_i hmore
      obtain ⟨first, rest, hfirst⟩ := List.exists_cons_of_ne_nil (mt List.isEmpty_iff.mpr hmore)
      have hopens := h.opens rfl
      rw [hfirst] at hopens ⊢
      exact hopens

theorem of_plain (p : Path) (h : ∀ name ∈ names, PlainName name) : Trail p 0 names where
  noSlash := fun name hname => (h name hname).noSlash
  noUp := fun hmem => absurd (h _ hmem).notDots (by decide)
  few := by
    rw [List.filter_eq_nil_iff.mpr
      fun name hname => by rw [isStill_of_plain (h name hname)]; exact Bool.false_ne_true]
    exact Nat.le_refl 0
  opens := fun _ hhead => by
    have hmem := (List.dropWhile_sublist _).subset (List.mem_of_head? hhead)
    exact (h "" hmem).notEmpty rfl

theorem singleton (hname : '/' ∉ name.toList) (hup : name ≠ "..") (hopens : p = ⟨"."⟩ → name ≠ "") :
    Trail p 1 [name] where
  noSlash := by simpa using hname
  noUp := by simpa using Ne.symm hup
  few := List.length_filter_le _ _
  opens := fun hp => by
    by_cases hdot : name = "."
    · simp [hdot]
    · rw [List.dropWhile_cons_of_neg (by simpa using hdot)]
      simpa using hopens hp

/-- From where searches start, a trail has a plain name behind its dots, and goes on from there. -/
theorem opening (h : Trail ⟨"."⟩ n names) {first : String} {rest : List String}
    (hnames : names.dropWhile (· == ".") = first :: rest) :
    PlainName first ∧ (∀ name ∈ rest, '/' ∉ name.toList) ∧ ".." ∉ rest := by
  have hsub := (List.dropWhile_sublist (· == ".") (l := names)).subset
  have hopens := h.opens rfl
  have hhead := List.head?_dropWhile_not (· == ".") names
  rw [hnames] at hsub hopens hhead
  obtain ⟨hfirst, hrest⟩ := List.forall_mem_cons.mp fun name hname => h.noSlash name (hsub hname)
  obtain ⟨hup, hrestUp⟩ := not_or.mp (mt List.mem_cons.mpr fun hmem => h.noUp (hsub hmem))
  have hdot : first.toList ≠ ['.'] :=
    fun heq => absurd ((@String.toList_inj first ".").mp heq) (by simpa using hhead)
  have hdots : first.toList ≠ ['.', '.'] :=
    fun heq => hup ((@String.toList_inj first "..").mp heq).symm
  refine ⟨⟨hfirst, fun hnil => ?_, by simp [isDots, hdot, hdots]⟩, hrest, hrestUp⟩
  exact hopens (congrArg some (String.toList_eq_nil_iff.mp hnil))

/-- **A trail leads down, by its names with a meaning.** -/
theorem destination (h : Trail p n names) (hp : Shown p) (start : Location) :
    (follow p names).destination start = p.destination start ++ meaning names := by
  have hbehind : ∀ {p : Path} {names : List String}, Firm p → (∀ name ∈ names, '/' ∉ name.toList) →
    ".." ∉ names →
      (follow p names).destination start = p.destination start ++ meaning names := by
    intro p names hfirm hslash hup
    rw [hfirm.follow hslash, Path.destination, (hfirm.joinNames hslash).2, List.foldl_append,
      filterMap_component?_names hup, Vault.foldl_onward_names]
    rfl
  rcases hp with hfirm | rfl
  · exact hbehind hfirm h.noSlash h.noUp
  · rw [← follow_dropWhile, ← meaning_dropWhile]
    cases hnames : names.dropWhile (· == ".") with
    | nil => exact (List.append_nil _).symm
    | cons first rest =>
      -- Behind the dots the path is firm.
      obtain ⟨hplain, hrest, hup⟩ := h.opening hnames
      have hmeaning := isStill_of_plain hplain
      have hone : (⟨first⟩ : Path).destination start = start ++ [first] := by
        rw [← Path.join_empty_left hplain.isAbsolute, Path.destination_join start ⟨""⟩ hplain]
        rfl
      have hfirst : meaning (first :: rest) = first :: meaning rest :=
        List.filter_cons_of_pos (by simp [hmeaning])
      rw [follow_cons, next_start hplain.noSlash,
        hbehind (firm_of_piece hplain.noSlash hmeaning) hrest hup, hone, hfirst, List.append_assoc]
      rfl

end Trail

/-! ## Searching -/

section Search

variable {q r : Pattern} {rest : List Pattern} {text : List Char}

theorem expand_of_literal (hq : q.literal? = some text) (d : Disk) (rest : List Pattern)
    (p : Path) :
    expand d (q :: rest) p = (literalPath? d p (String.ofList text)).elim [] (expand d rest) := by
  rw [literal_of_literal? hq, expand_cons_literal]
  cases literalPath? d p (String.ofList text) <;> rfl

theorem expand_of_not_directory (hq : q.literal? = none) (hdir : d.isDirectory p = false) :
    expand d (q :: rest) p = [] := by
  rw [expand.eq_def]
  simp only [hq, hdir, Bool.not_false, if_true]

theorem expand_below_nil (hq : q.literal? = none) (hpath : q.isAnyPath = true)
    (hdir : d.isDirectory p = true) : expand d [q] p = (pathsBelow d p).filter d.isDirectory := by
  rw [expand.eq_def]
  simp only [hq, hdir, hpath, Bool.not_true, Bool.false_eq_true, if_false, if_true]

theorem expand_again (hq : q.literal? = none) (hpath : q.isAnyPath = true) (hr : r.isAnyPath = true)
    (hdir : d.isDirectory p = true) : expand d (q :: r :: rest) p = expand d (r :: rest) p := by
  rw [expand.eq_def]
  simp only [hq, hdir, hpath, hr, Bool.not_true, Bool.false_eq_true, if_false, if_true]

theorem expand_below (hq : q.literal? = none) (hpath : q.isAnyPath = true)
    (hr : r.isAnyPath = false) (hdir : d.isDirectory p = true) :
    expand d (q :: r :: rest) p =
      (pathsBelow d p).flatMap fun next => if fitsName r next then expand d rest next else [] := by
  rw [expand.eq_def]
  simp only [hq, hdir, hpath, hr, Bool.not_true, Bool.false_eq_true, if_false, if_true]

theorem expand_name (hq : q.literal? = none) (hpath : q.isAnyPath = false)
    (hdots : dotPaths q p = []) (hdir : d.isDirectory p = true) :
    expand d (q :: rest) p = (pathsIn d p).flatMap fun next =>
      if fitsName q next then expand d rest next else [] := by
  rw [expand.eq_def]
  simp only [hq, hdir, hpath, hdots, Bool.not_true, Bool.false_eq_true, if_false, List.flatMap_nil,
    List.nil_append]

/-- **A component that does not go up:** it is no pattern for a piece with a slash, and does not
stand for two dots. -/
structure Inner (q : Pattern) : Prop where
  noSlash : ∀ text, q.literal? = some text → '/' ∉ text
  noUp : q.head? = some (.char '.') → q.fits ['.', '.'] = false

theorem Inner.ne_up (h : Inner q) (hq : q.literal? = some text) : String.ofList text ≠ ".." := by
  intro hup
  have htext : text = ['.', '.'] := by rw [← String.toList_ofList (l := text), hup]; rfl
  rw [htext] at hq
  have hno := h.noUp (by rw [literal_of_literal? hq]; rfl)
  rw [literal_of_literal? hq, (fits_literal _ _).mpr rfl] at hno
  exact absurd hno (by simp)

/-- Such a component finds neither of the dots. -/
theorem Inner.dotPaths (h : Inner q) (hq : q.literal? = none) (p : Path) : dotPaths q p = [] := by
  unfold Glob.dotPaths
  split
  · rename_i hhead
    have hup := h.noUp hhead
    have hhere : q.fits ['.'] = false := Bool.eq_false_iff.mpr fun hfits => by
      simp [fits_up hhead hq hfits] at hup
    rw [List.filter_eq_nil_iff.mpr, List.map_nil]
    intro name hname
    rcases List.mem_pair.mp hname with rfl | rfl
    · exact Bool.eq_false_iff.mp hup
    · exact Bool.eq_false_iff.mp hhere
  · rfl

theorem not_exists_empty (d : Disk) : exists? d ⟨""⟩ = false := by
  rw [exists?, look, find, route]
  rfl

/-- Where a name leads that is looked up. -/
theorem literalPath?_some (hp : Shown p) (hname : '/' ∉ name.toList)
    (h : literalPath? d p name = some path) : path = next p name ∧ (p = ⟨"."⟩ → name ≠ "") := by
  have hpath : path = next p name := by
    rcases literalPath?_cases d p name with hnone | hsome
    · exact absurd (hnone.symm.trans h) (by simp)
    · exact Option.some.inj (h.symm.trans hsome)
  refine ⟨hpath, ?_⟩
  rintro rfl rfl
  rw [literalPath?, show base ⟨"."⟩ = ⟨""⟩ from by decide, Path.join_empty_left (by decide),
    not_exists_empty] at h
  exact absurd h (by simp)

theorem exists_of_mem_pathsBelow (hproper : d.IsProper) (hp : Shown p) (h : path ∈ pathsBelow d p) :
    ∃ name names, (∀ n ∈ name :: names, PlainName n) ∧ path = follow p (name :: names) := by
  unfold pathsBelow at h
  split at h
  · exact absurd h List.not_mem_nil
  · rename_i l hfind
    obtain ⟨m, hm, rfl⟩ := List.mem_map.mp h
    obtain ⟨⟨name, names, rfl⟩, hseen⟩ := mem_below.mp hm
    have hplain : ∀ n ∈ name :: names, PlainName n :=
      fun n hn => (hproper.named _ hseen n (List.mem_append_right _ hn)).toPlainName
    exact ⟨name, names, hplain, by rw [List.drop_left, joinNames_base hp hplain]⟩

theorem exists_of_mem_pathsIn (hproper : d.IsProper) (h : path ∈ pathsIn d p) :
    ∃ name, PlainName name ∧ path = next p name := by
  unfold pathsIn at h
  split at h
  · exact absurd h List.not_mem_nil
  · rename_i names hnames
    obtain ⟨name, hname, rfl⟩ := List.mem_map.mp h
    have hseen := names_ok hnames name (List.mem_mergeSort.mp hname)
    exact ⟨name, (hproper.named _ hseen name (by simp)).toPlainName, rfl⟩

theorem Shown.follow (hp : Shown p) (hplain : ∀ n ∈ names, PlainName n) :
    Shown (follow p names) := by
  induction names generalizing p with
  | nil => exact hp
  | cons name names ih =>
    obtain ⟨hname, hnames⟩ := List.forall_mem_cons.mp hplain
    exact ih (hp.next hname.noSlash fun _ hnil => hname.notEmpty (hnil ▸ rfl)) hnames

/-- One part of a trail has been gone, and the search goes on from there. -/
theorem Trail.onward {n m : Nat} {front : List String} (hfront : Trail p n front)
    (h : ∃ names, Trail (follow p front) m names ∧ path = follow (follow p front) names) :
    ∃ names, Trail p (m + n) names ∧ path = follow p names := by
  obtain ⟨names, htrail, rfl⟩ := h
  exact ⟨front ++ names, Nat.add_comm n m ▸ hfront.append htrail,
    (follow_append p front names).symm⟩

/-- **What is found is found by a trail.** -/
theorem exists_trail (hproper : d.IsProper) {components : List Pattern}
    (hinner : ∀ q ∈ components, Inner q) (hp : Shown p) (h : path ∈ expand d components p) :
    ∃ names, Trail p components.length names ∧ path = follow p names := by
  -- By the recursion of `expand`: a literal is one name, a `**` some plain names, any other
  -- component one plain name; each case puts its names in front of those the rest gives.
  induction components, p using expand.induct d with
  | case1 p =>
    rw [expand.eq_def] at h
    exact ⟨[], .nil p, List.mem_singleton.mp h⟩
  | case2 q rest p text hq path' hpath ih =>
    obtain ⟨hq', hrest⟩ := List.forall_mem_cons.mp hinner
    rw [expand_of_literal hq, hpath] at h
    have hname : '/' ∉ (String.ofList text).toList := by
      rw [String.toList_ofList]
      exact hq'.noSlash text hq
    obtain ⟨rfl, hopens⟩ := literalPath?_some hp hname hpath
    exact (Trail.singleton hname (hq'.ne_up hq) hopens).onward (ih hrest (hp.next hname hopens) h)
  | case3 q rest p text hq hpath =>
    rw [expand_of_literal hq, hpath] at h
    exact absurd h List.not_mem_nil
  | case4 q rest p hq hdir =>
    rw [expand_of_not_directory hq (by simpa using hdir)] at h
    exact absurd h List.not_mem_nil
  | case5 q p hq hdir hpath =>
    rw [expand_below_nil hq hpath (by simpa using hdir)] at h
    obtain ⟨name, names, hplain, rfl⟩ :=
      exists_of_mem_pathsBelow hproper hp (List.mem_of_mem_filter h)
    exact ⟨_, (Trail.of_plain p hplain).mono (Nat.zero_le _), rfl⟩
  | case6 q p hq hdir hpath r rest hr ih =>
    rw [expand_again hq hpath hr (by simpa using hdir)] at h
    obtain ⟨names, htrail, rfl⟩ := ih (List.forall_mem_cons.mp hinner).2 hp h
    exact ⟨names, htrail.mono (Nat.le_succ _), rfl⟩
  | case7 q p hq hdir hpath r rest hr ih =>
    rw [expand_below hq hpath (by simpa using hr) (by simpa using hdir)] at h
    obtain ⟨path', hpath', hfound⟩ := List.mem_flatMap.mp h
    split at hfound
    · obtain ⟨name, names, hplain, rfl⟩ := exists_of_mem_pathsBelow hproper hp hpath'
      have hrest := (List.forall_mem_cons.mp (List.forall_mem_cons.mp hinner).2).2
      exact ((Trail.of_plain p hplain).mono (Nat.zero_le 2)).onward
        (ih _ hrest (hp.follow hplain) hfound)
    · exact absurd hfound List.not_mem_nil
  | case8 q rest p hq hdir hpath ih =>
    obtain ⟨hq', hrest⟩ := List.forall_mem_cons.mp hinner
    rw [expand_name hq (by simpa using hpath) (hq'.dotPaths hq p) (by simpa using hdir)] at h
    obtain ⟨path', hpath', hfound⟩ := List.mem_flatMap.mp h
    split at hfound
    · obtain ⟨name, hplain, rfl⟩ := exists_of_mem_pathsIn hproper hpath'
      have hplain : ∀ n ∈ [name], PlainName n := by simpa using hplain
      exact ((Trail.of_plain p hplain).mono (Nat.zero_le 1)).onward
        (ih _ hrest (hp.follow hplain) hfound)
    · exact absurd hfound List.not_mem_nil

end Search

end AltRender.Glob

import AltRender.Proofs.Glob.Trail

/-!
# `Proofs/Glob/Spelling` — what is left when the root is taken off

What a search finds behind a root is spelled as the trail that led to it. With the root taken off,
the names of the trail are left, but for empty ones and for dots in front: its *spelling*
(`Leads.strip_follow`). The spelling leads from the root to the same place
(`Leads.approach_follow`).

Dots in front of a trail are dropped because a search that starts where searches start does not show
them, and empty names because doubled slashes are not walked. Neither changes where a trail leads,
so the meaning of a spelling is that of the trail (`meaning_spelling`), and it is no longer
(`span_spelling_le`). As an identity of a source a spelling is relative and goes nowhere up
(`Trail.not_leadsOut`), which is what the vault asks of it.
-/

set_option autoImplicit false

namespace AltRender.Glob

open AltRender.Disk AltRender.Text

variable {d : Disk} {p root : Path} {l : Location} {last : String} {names front : List String}
  {n : Nat}

/-! ## Joined names -/

/-- Names with a slash between any two, as a path. -/
def named (names : List String) : Path :=
  Path.ofPieces (names.map String.toList)

theorem pieces_named (hne : names ≠ []) (hslash : ∀ name ∈ names, '/' ∉ name.toList) :
    (named names).pieces = names.map String.toList := by
  rw [named, Path.ofPieces, Path.pieces, String.toList_ofList, cut_glue (by simpa using hne)]
  intro piece hpiece
  obtain ⟨name, hname, rfl⟩ := List.mem_map.mp hpiece
  exact hslash name hname

theorem isAbsolute_named (hne : names ≠ []) (hslash : ∀ name ∈ names, '/' ∉ name.toList)
    (hgap : "" ∉ names) : (named names).isAbsolute = false := by
  rw [Bool.eq_false_iff]
  intro habs
  obtain ⟨name, rest, rfl⟩ := List.exists_cons_of_ne_nil hne
  have hempty := Path.first_of_isAbsolute (pieces_named hne hslash) habs
  exact hgap (String.toList_eq_nil_iff.mp hempty ▸ List.mem_cons_self)

theorem steps_named (hne : names ≠ []) (hslash : ∀ name ∈ names, '/' ∉ name.toList)
    (hgap : "" ∉ names) : (named names).steps = names.map String.toList := by
  rw [Path.steps, pieces_named hne hslash, List.filter_eq_self]
  intro piece hpiece
  obtain ⟨name, hname, rfl⟩ := List.mem_map.mp hpiece
  have hnil : name.toList ≠ [] := fun hnil => hgap (String.toList_eq_nil_iff.mp hnil ▸ hname)
  simpa using hnil

theorem mem_glue {sep c : Char} {pieces : List (List Char)} (h : c ∈ glue sep pieces) :
    c = sep ∨ ∃ piece ∈ pieces, c ∈ piece := by
  induction pieces with
  | nil => exact absurd h List.not_mem_nil
  | cons piece pieces ih =>
    cases pieces with
    | nil => exact .inr ⟨piece, List.mem_cons_self, h⟩
    | cons second pieces =>
      rcases List.mem_append.mp h with h | h
      · exact .inr ⟨piece, List.mem_cons_self, h⟩
      · rcases List.mem_cons.mp h with h | h
        · exact .inl h
        · obtain hsep | ⟨other, hother, hc⟩ := ih h
          · exact .inl hsep
          · exact .inr ⟨other, List.mem_cons_of_mem _ hother, hc⟩

theorem mem_named {c : Char} (h : c ∈ (named names).text.toList) :
    c = '/' ∨ ∃ name ∈ names, c ∈ name.toList := by
  rw [named, Path.ofPieces, String.toList_ofList] at h
  rcases mem_glue h with hslash | ⟨piece, hpiece, hc⟩
  · exact .inl hslash
  · obtain ⟨name, hname, rfl⟩ := List.mem_map.mp hpiece
    exact .inr ⟨name, hname, hc⟩

theorem byteLength_named (names : List String) :
    byteLength (named names).text.toList ≤ span names := by
  rw [named, Path.ofPieces, String.toList_ofList]
  induction names with
  | nil => exact Nat.le_refl 0
  | cons name names ih =>
    rw [span_cons, List.map_cons]
    cases names with
    | nil =>
      rw [List.map_nil, glue]
      omega
    | cons second names =>
      rw [List.map_cons] at ih ⊢
      rw [glue, byteLength_append, byteLength_cons]
      have hslash : '/'.utf8Size = 1 := by decide
      omega

/-- Joined from the start on, names make up the path they spell. -/
theorem joinNames_named (hne : names ≠ []) (hslash : ∀ name ∈ names, '/' ∉ name.toList)
    (hgap : "" ∉ names) : joinNames ⟨""⟩ names = named names := by
  have hpieces : cut '/' (named names).text.toList = names.map String.toList :=
    pieces_named hne hslash
  have hjoined := @joinNames_pieces (named names).text (by
    rw [hpieces]
    intro hnil
    obtain ⟨name, hname, hempty⟩ := List.mem_map.mp hnil
    exact hgap (String.toList_eq_nil_iff.mp hempty ▸ hname))
  rwa [hpieces, map_ofList_toList] at hjoined

/-- An empty name in front of another one adds nothing. -/
theorem joinNames_filter (p : Path) (hslash : ∀ name ∈ front, '/' ∉ name.toList)
    (hlast : '/' ∉ last.toList) :
    joinNames p (front ++ [last]) = joinNames p (front.filter (· ≠ "") ++ [last]) := by
  induction front generalizing p with
  | nil => rfl
  | cons name front ih =>
    obtain ⟨hname, hfront⟩ := List.forall_mem_cons.mp hslash
    by_cases hempty : name = ""
    · subst hempty
      have hskip : joinNames (p.join ⟨""⟩) (front ++ [last]) = joinNames p (front ++ [last]) := by
        obtain ⟨second, rest, hsplit⟩ :=
          List.exists_cons_of_ne_nil (show front ++ [last] ≠ [] by simp)
        have hsecond : '/' ∉ second.toList := by
          have hmem : second ∈ front ++ [last] := hsplit ▸ List.mem_cons_self
          rcases List.mem_append.mp hmem with hmem | hmem
          · exact hfront second hmem
          · rwa [List.mem_singleton.mp hmem]
        rw [hsplit, joinNames_cons, joinNames_cons,
          Path.join_assoc p (by decide) (relative_of_noSlash hsecond),
          Path.join_empty_left (relative_of_noSlash hsecond)]
      rw [List.cons_append, joinNames_cons, hskip, ih p hfront, List.filter_cons_of_neg (by simp)]
    · rw [List.cons_append, joinNames_cons, ih _ hfront,
        List.filter_cons_of_pos (by simpa using hempty), List.cons_append, joinNames_cons]

/-! ## Spellings -/

/-- The names of a trail but for empty ones and dots in front. -/
def spelling (names : List String) : List String :=
  (names.dropWhile isStill).filter (· ≠ "")

theorem mem_of_mem_spelling {name : String} (h : name ∈ spelling names) : name ∈ names :=
  (List.dropWhile_sublist _).subset (List.mem_of_mem_filter h)

theorem empty_not_mem_filter (names : List String) : "" ∉ names.filter (· ≠ "") := by
  simp [List.mem_filter]

theorem empty_not_mem_spelling (names : List String) : "" ∉ spelling names :=
  empty_not_mem_filter _

theorem filter_concat_ne_nil (front : List String) (hlast : isStill last = false) :
    (front ++ [last]).filter (· ≠ "") ≠ [] := by
  refine List.ne_nil_of_mem (List.mem_filter.mpr ⟨List.mem_append_right _ List.mem_cons_self, ?_⟩)
  rw [decide_eq_true_iff]
  rintro rfl
  exact absurd hlast (by decide)

/-- A name with a meaning at the end stays at the end. -/
theorem spelling_concat (front : List String) (hlast : isStill last = false) :
    spelling (front ++ [last]) = spelling front ++ [last] := by
  have hne : last ≠ "" := by
    rintro rfl
    exact absurd hlast (by decide)
  have hsingle : [last].filter (· ≠ "") = [last] := by simpa using hne
  rw [spelling, List.dropWhile_append]
  split
  · rename_i hempty
    rw [spelling, List.isEmpty_iff.mp hempty, List.dropWhile_cons_of_neg (by simp [hlast]), hsingle]
    rfl
  · rw [List.filter_append, hsingle]
    rfl

theorem spelling_eq (names : List String) :
    spelling names = (names.filter (· ≠ "")).dropWhile isStill := by
  induction names with
  | nil => rfl
  | cons name names ih =>
    by_cases hempty : name = ""
    · subst hempty
      rw [List.filter_cons_of_neg (by simp), ← ih, spelling, List.dropWhile_cons_of_pos (by decide)]
      rfl
    · rw [List.filter_cons_of_pos (by simpa using hempty)]
      cases hstill : isStill name with
      | true =>
        rw [spelling, List.dropWhile_cons_of_pos hstill, List.dropWhile_cons_of_pos hstill, ← ih]
        rfl
      | false =>
        rw [spelling, List.dropWhile_cons_of_neg (by simp [hstill]),
          List.dropWhile_cons_of_neg (by simp [hstill]),
          List.filter_cons_of_pos (by simpa using hempty)]

theorem meaning_spelling (names : List String) : meaning (spelling names) = meaning names := by
  induction names with
  | nil => rfl
  | cons name names ih =>
    cases hstill : isStill name with
    | true =>
      rw [meaning, meaning, List.filter_cons_of_neg (by simp [hstill]), spelling,
        List.dropWhile_cons_of_pos hstill]
      exact ih
    | false =>
      rw [spelling, List.dropWhile_cons_of_neg (by simp [hstill]), meaning, List.filter_filter]
      refine List.filter_congr fun n _ => ?_
      -- An empty name has no meaning either.
      by_cases hn : n = ""
      · subst hn
        decide
      · simp [hn]

theorem span_sublist {names names' : List String} (h : names.Sublist names') :
    span names ≤ span names' := by
  induction h with
  | slnil => exact Nat.le_refl 0
  | cons name _ ih =>
    rw [span_cons]
    omega
  | cons_cons name _ ih =>
    rw [span_cons, span_cons]
    omega

theorem span_spelling_le (names : List String) : span (spelling names) ≤ span names :=
  span_sublist (List.filter_sublist.trans (List.dropWhile_sublist _))

section Trail

variable (htrail : Trail p n (front ++ [last])) (hlast : isStill last = false)

include htrail hlast

theorem Trail.pieces_spelling :
    (named (spelling (front ++ [last]))).pieces =
      (spelling (front ++ [last])).map String.toList := by
  refine pieces_named ?_ fun name hname => htrail.noSlash name (mem_of_mem_spelling hname)
  rw [spelling_concat front hlast]
  simp

theorem Trail.isAbsolute_spelling : (named (spelling (front ++ [last]))).isAbsolute = false := by
  refine isAbsolute_named ?_ (fun name hname => htrail.noSlash name (mem_of_mem_spelling hname))
    (empty_not_mem_spelling _)
  rw [spelling_concat front hlast]
  simp

theorem Trail.steps_spelling :
    (named (spelling (front ++ [last]))).steps =
      (spelling (front ++ [last])).map String.toList := by
  refine steps_named ?_ (fun name hname => htrail.noSlash name (mem_of_mem_spelling hname))
    (empty_not_mem_spelling _)
  rw [spelling_concat front hlast]
  simp

theorem Trail.getLast?_spelling :
    (named (spelling (front ++ [last]))).pieces.getLast? = some last.toList := by
  rw [htrail.pieces_spelling hlast, spelling_concat front hlast, List.map_append,
    List.map_singleton, List.getLast?_concat]

theorem Trail.segments_spelling :
    Vault.segments (named (spelling (front ++ [last]))).text = meaning (front ++ [last]) := by
  rw [Vault.segments, show cut '/' (named (spelling (front ++ [last]))).text.toList =
    _ from htrail.pieces_spelling hlast,
    List.filter_map, map_ofList_toList]
  exact meaning_spelling (front ++ [last])

theorem Trail.not_leadsOut : ¬ Vault.LeadsOut (named (spelling (front ++ [last]))).text := by
  rw [Vault.LeadsOut, show cut '/' (named (spelling (front ++ [last]))).text.toList =
    _ from htrail.pieces_spelling hlast,
    not_or]
  refine ⟨by simpa [Path.isAbsolute] using htrail.isAbsolute_spelling hlast, fun hup => ?_⟩
  obtain ⟨name, hname, hdots⟩ := List.mem_map.mp hup
  exact htrail.noUp (mem_of_mem_spelling ((@String.toList_inj name "..").mp hdots ▸ hname))

end Trail

/-! ## Behind a root -/

/-- The names of a trail with a meaning at its end are joined behind a firm path. -/
theorem Firm.follow_eq (h : Firm p) (hslash : ∀ name ∈ front ++ [last], '/' ∉ name.toList)
    (hlast : isStill last = false) :
    Glob.follow p (front ++ [last]) = p.join (named ((front ++ [last]).filter (· ≠ ""))) := by
  have hne : last ≠ "" := by
    rintro rfl
    exact absurd hlast (by decide)
  have hsplit : (front ++ [last]).filter (· ≠ "") = front.filter (· ≠ "") ++ [last] := by
    rw [List.filter_append, List.filter_cons_of_pos (by simpa using hne), List.filter_nil]
  obtain ⟨hfront, hlastSlash⟩ := List.forall_mem_append.mp hslash
  have hslash' : ∀ name ∈ front.filter (· ≠ "") ++ [last], '/' ∉ name.toList :=
    List.forall_mem_append.mpr ⟨fun name hname => hfront name (List.mem_of_mem_filter hname),
      hlastSlash⟩
  have hgap : "" ∉ front.filter (· ≠ "") ++ [last] := by
    rw [← hsplit]
    exact empty_not_mem_filter _
  rw [h.follow hslash, joinNames_filter p hfront (hlastSlash last List.mem_cons_self),
    joinNames_eq p hslash' (by simp), joinNames_named (by simp) hslash' hgap, hsplit]

theorem dropWhile_isStill {first : String} {rest : List String}
    (hnames : names.dropWhile (· == ".") = first :: rest) (hfirst : isStill first = false) :
    names.dropWhile isStill = first :: rest := by
  induction names with
  | nil => exact absurd hnames (by simp)
  | cons name names ih =>
    by_cases hdot : name = "."
    · subst hdot
      rw [List.dropWhile_cons_of_pos (by rfl)] at hnames
      rw [List.dropWhile_cons_of_pos (by decide), ih hnames]
    · rw [List.dropWhile_cons_of_neg (by simpa using hdot)] at hnames
      obtain ⟨rfl, rfl⟩ := List.cons.inj hnames
      rw [List.dropWhile_cons_of_neg (by simp [hfirst])]

/-- From where searches start, a trail comes out as it is spelled. -/
theorem Trail.follow_start (h : Trail ⟨"."⟩ n (front ++ [last])) (hlast : isStill last = false) :
    follow ⟨"."⟩ (front ++ [last]) = named (spelling (front ++ [last])) := by
  have hdot : (last == ".") = false := by
    rw [beq_eq_false_iff_ne]
    rintro rfl
    exact absurd hlast (by decide)
  obtain ⟨front', hfront'⟩ :
    ∃ front', (front ++ [last]).dropWhile (· == ".") = front' ++ [last] := by
    rw [List.dropWhile_append]
    split
    · exact ⟨[], by rw [List.dropWhile_cons_of_neg (by simp [hdot])]; rfl⟩
    · exact ⟨_, rfl⟩
  obtain ⟨first, rest, hcons⟩ := List.exists_cons_of_ne_nil (show front' ++ [last] ≠ [] by simp)
  obtain ⟨hplain, hrest, -⟩ := h.opening (hfront'.trans hcons)
  have hstill := isStill_of_plain hplain
  have hslash : ∀ name ∈ front' ++ [last], '/' ∉ name.toList := by
    rw [hcons]
    exact List.forall_mem_cons.mpr ⟨hplain.noSlash, hrest⟩
  obtain ⟨hslash', hlastSlash⟩ := List.forall_mem_append.mp hslash
  have hne : last ≠ "" := by
    rintro rfl
    exact absurd hlast (by decide)
  -- The last name keeps the filter from leaving an empty end.
  have hspelling : spelling (front ++ [last]) = front'.filter (· ≠ "") ++ [last] := by
    rw [spelling, dropWhile_isStill (hfront'.trans hcons) hstill, ← hcons, List.filter_append,
      List.filter_cons_of_pos (by simpa using hne), List.filter_nil]
  have hgap := empty_not_mem_spelling (front ++ [last])
  rw [hspelling] at hgap ⊢
  rw [← follow_dropWhile, hfront', hcons, Glob.follow_start (by decide) hplain.noSlash hstill hrest,
    ← hcons, joinNames_filter _ hslash' (hlastSlash last List.mem_cons_self),
    joinNames_named (by simp) (fun name hname => ?_) hgap]
  exact hslash name ((List.filter_sublist.append_right _).subset hname)

section Leads

variable (h : Leads root p)

include h

theorem Leads.shown : Shown p := by
  cases h with
  | along hfirm => exact .inl hfirm
  | start => exact .inr rfl

/-- A search is where searches start behind a root that leads there, and behind no other one. -/
theorem Leads.isStart_iff : isStart root = true ↔ p = ⟨"."⟩ := by
  cases h with
  | along hfirm hcomponents =>
    refine iff_of_false (fun hstart => ?_) hfirm.ne_start
    rw [Glob.isStart_iff, ← hcomponents, ← Glob.isStart_iff, hfirm.elsewhere] at hstart
    exact absurd hstart (by simp)
  | start hstart => exact iff_of_true hstart rfl

theorem Leads.destination (start : Location) : p.destination start = root.destination start := by
  cases h with
  | along _ hcomponents => rw [Path.destination, hcomponents, Path.destination]
  | start hstart =>
    have hdot : isStart ⟨"."⟩ = true := by decide
    rw [Path.destination, Path.destination, Glob.isStart_iff.mp hstart, Glob.isStart_iff.mp hdot]

variable (htrail : Trail p n (front ++ [last])) (hlast : isStill last = false)

include htrail hlast

/-- **With the root taken off, what was found is spelled as the trail that led to it.** -/
theorem Leads.strip_follow :
    ((follow p (front ++ [last])).stripLeading? root).getD (follow p (front ++ [last])) =
      named (spelling (front ++ [last])) := by
  -- Along a root the stripping takes off what the join has put in front; at the start there is
  -- nothing to take off, and the dots in front were never spelled.
  cases h with
  | along hfirm hcomponents =>
    have hkept : ∀ name ∈ (front ++ [last]).filter (· ≠ ""), '/' ∉ name.toList :=
      fun name hname => htrail.noSlash name (List.mem_of_mem_filter hname)
    have hkeptNe := filter_concat_ne_nil front hlast
    have hlast' := htrail.getLast?_spelling hlast
    rw [htrail.pieces_spelling hlast] at hlast'
    have hdrop : ((front ++ [last]).filter (· ≠ "")).dropWhile (Path.isRedundant ∘ String.toList) =
        spelling (front ++ [last]) := (spelling_eq _).symm
    rw [hfirm.follow_eq htrail.noSlash hlast,
      Path.stripLeading?_join hfirm.nonempty hcomponents
        (isAbsolute_named hkeptNe hkept (empty_not_mem_filter _)),
      pieces_named hkeptNe hkept, List.dropWhile_map, hdrop,
      Path.dropRedundantEnd_of_getLast? hlast' hlast]
    rfl
  | start hroot =>
    obtain ⟨first, rest, hcons⟩ : ∃ first rest, spelling (front ++ [last]) = first :: rest :=
      List.exists_cons_of_ne_nil (by rw [spelling_concat front hlast]; simp)
    have hfirst : isStill first = false := by
      have hhead := List.head?_dropWhile_not isStill ((front ++ [last]).filter (· ≠ ""))
      rw [← spelling_eq, hcons] at hhead
      exact hhead
    have hpieces := htrail.pieces_spelling hlast
    rw [hcons, List.map_cons] at hpieces
    rw [htrail.follow_start hlast, hcons, stripLeading?_start hpieces hfirst hroot]
    rfl

/-- **What was found is where its spelling leads from the root.** -/
theorem Leads.approach_follow (hroot : d.approach root = .ok l) (hdir : d.isDirectoryAt l = true) :
    d.approach (follow p (front ++ [last])) =
      d.walk l ((spelling (front ++ [last])).map String.toList) := by
  cases h with
  | along hfirm _ hsteps habsolute =>
    have hkept : ∀ name ∈ (front ++ [last]).filter (· ≠ ""), '/' ∉ name.toList :=
      fun name hname => htrail.noSlash name (List.mem_of_mem_filter hname)
    have hkeptNe := filter_concat_ne_nil front hlast
    have hgap := empty_not_mem_filter (front ++ [last])
    have happroach : d.approach p = .ok l := by
      rw [approach_eq, hsteps, habsolute, ← approach_eq, hroot]
    rw [hfirm.follow_eq htrail.noSlash hlast,
      approach_join happroach (isAbsolute_named hkeptNe hkept hgap),
      steps_named hkeptNe hkept hgap, spelling_eq]
    -- The dots in front stay in the directory.
    conv_lhs =>
      rw [← List.takeWhile_append_dropWhile (p := isStill) (l := (front ++ [last]).filter (· ≠ ""))]
    rw [List.map_append]
    refine walk_append_ok (walk_here hdir fun piece hpiece => ?_) _
    obtain ⟨name, hname, rfl⟩ := List.mem_map.mp hpiece
    have hstill := List.all_eq_true.mp List.all_takeWhile name hname
    have hmem := (List.takeWhile_sublist isStill).subset hname
    rw [(isStill_iff.mp hstill).resolve_left fun hempty => hgap (hempty ▸ hmem)]
    rfl
  | start hstart =>
    rw [htrail.follow_start hlast, approach_eq, htrail.isAbsolute_spelling hlast,
      htrail.steps_spelling hlast, start_of_approach hstart hroot]
    rfl

end Leads

end AltRender.Glob

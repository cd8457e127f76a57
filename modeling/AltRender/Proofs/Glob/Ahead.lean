import AltRender.Proofs.Glob.Trail

/-!
# `Proofs/Glob/Ahead` — files that lie ahead of a search

A search goes down component by component, and what is left of the pattern is matched against what
is below the path it has reached. For one file this can be followed exactly. The file *lies ahead*
of the search (`Ahead`) when it is below the path that was reached, by some names, and there is room
for all paths on the way. A step towards the file leaves it ahead (`Ahead.next`); a step that stays
where it is does as well (`Ahead.stay`).

All other steps do not matter for this file. What is found by a search is below the path that it had
reached (`exists_trail`), so a search that went in another direction does not find it
(`countP_elsewhere`), and below a file nothing is found at all (`expand_of_file`).
-/

set_option autoImplicit false

namespace AltRender.Glob

open AltRender.Disk AltRender.Text

variable {d : Disk} {p path : Path} {l m : Location} {name : String} {names : List String}

/-! ## Where a search is -/

theorem isDirectory_of_find (h : d.find p = .ok l) : d.isDirectory p = d.isDirectoryAt l := by
  simp only [isDirectory, look, h, isDirectoryAt, bind, Except.bind]
  cases d.item? l with
  | none => rfl
  | some item => cases item <;> rfl

theorem isFile_of_find (h : d.find p = .ok l) {bytes : List UInt8} {t : Instant}
    (hfile : d.seen l = some (.file bytes t)) : d.isFile p = true := by
  simp only [isFile, look, h, item?_file_iff.mpr hfile, bind, Except.bind]
  rfl

theorem Shown.nonempty (h : Shown p) : p.text.toList ≠ [] := by
  rcases h with hfirm | rfl
  · exact hfirm.nonempty
  · decide

/-- **A name behind a path is looked up where the path leads.** -/
theorem approach_next (hp : Shown p) (hfind : d.find p = .ok l) (hname : '/' ∉ name.toList) :
    d.approach (next p name) = d.walk l (⟨name⟩ : Path).steps := by
  have hrelative := relative_of_noSlash hname
  have happroach := approach_of_find hfind
  rcases hp with hfirm | rfl
  · rw [next, hfirm.base]
    exact approach_join happroach hrelative
  · rw [start_of_approach (by decide) happroach, next_start hname, approach_eq, hrelative]
    rfl

theorem steps_of_ne (hname : '/' ∉ name.toList) (hne : name ≠ "") :
    (⟨name⟩ : Path).steps = [name.toList] := by
  have hnil : name.toList ≠ [] := fun hnil => hne (String.toList_eq_nil_iff.mp hnil)
  rw [Path.steps, pieces_of_noSlash hname, List.filter_cons_of_pos (by simpa using hnil),
    List.filter_nil]

/-- What a name leads to. -/
structure LeadsTo (d : Disk) (l : Location) (name : String) (m : Location) : Prop where
  noSlash : '/' ∉ name.toList
  noNul : ∀ c ∈ name.toList, c.toNat ≠ 0
  directory : d.isDirectoryAt l = true
  walk : d.walk l (⟨name⟩ : Path).steps = .ok m

theorem LeadsTo.stay (hdir : d.isDirectoryAt l = true) (hstill : isStill name = true) :
    LeadsTo d l name l := by
  rcases isStill_iff.mp hstill with rfl | rfl
  · exact ⟨by decide, fun c hc => absurd hc List.not_mem_nil, hdir, rfl⟩
  · exact ⟨by decide, List.forall_mem_singleton.mpr (by decide), hdir,
      walk_here hdir (List.forall_mem_singleton.mpr rfl)⟩

theorem LeadsTo.of_seen (hproper : d.IsProper) (hseen : (d.seen (l ++ [name])).isSome = true) :
    LeadsTo d l name (l ++ [name]) := by
  have hname : ProperName name := hproper.named _ hseen name (by simp)
  refine ⟨hname.noSlash, hname.noNul, hproper.tree.isDirectoryAt_of_below hseen, ?_⟩
  rw [steps_of_ne hname.noSlash fun hnil => hname.notEmpty (hnil ▸ rfl)]
  exact hproper.walk_name hseen

theorem LeadsTo.isSome (h : LeadsTo d l name m) :
    (d.item? m).isSome = true ∨ name = "." ∨ name = ".." := by
  by_cases hempty : name = ""
  · subst hempty
    obtain rfl : l = m := Except.ok.inj h.walk
    obtain ⟨changed, hitem⟩ := item?_of_isDirectoryAt h.directory
    exact .inl (by rw [hitem]; rfl)
  · have hwalk := h.walk
    rw [steps_of_ne h.noSlash hempty] at hwalk
    obtain ⟨k, hstep, hend⟩ := walk_cons hwalk
    obtain rfl : k = m := Except.ok.inj hend
    have hne : name.toList ≠ [] := fun hnil => hempty (String.toList_eq_nil_iff.mp hnil)
    refine (step_ok hne hstep).2.2.imp_right fun hdots => ?_
    rw [isDots, Bool.or_eq_true, beq_iff_eq, beq_iff_eq] at hdots
    exact hdots.imp (@String.toList_inj name ".").mp (@String.toList_inj name "..").mp

theorem literalPath?_eq (d : Disk) (p : Path) (name : String) :
    literalPath? d p name =
      if name = "." ∨ name = ".." then (if d.isDirectory p then some (next p name) else none)
      else if exists? d (next p name) then some (next p name)
      else none := rfl

section Next

variable (h : LeadsTo d l name m) (hp : Shown p) (hfind : d.find p = .ok l)
  (hopens : p = ⟨"."⟩ → name ≠ "")
  (hroom : byteLength p.text.toList + byteLength name.toList + 1 < pathLimit)

include h hp hfind hopens hroom

/-- **A path with a name behind it leads where the name leads.** -/
theorem LeadsTo.find_next : d.find (next p name) = .ok m := by
  refine find_of_approach ⟨(hp.next h.noSlash hopens).nonempty, fun c hc => ?_, ?_⟩
    ((approach_next hp hfind h.noSlash).trans h.walk) fun hends => ?_
  · have hbase : ∀ c ∈ (base p).text.toList, c ∈ p.text.toList := by
      unfold base
      split
      · exact fun c hc => absurd hc List.not_mem_nil
      · exact fun c hc => hc
    rcases Path.mem_join (base p) (relative_of_noSlash h.noSlash) hc with hc | rfl | hc
    · exact (Path.fit_of_find hfind).noNul c (hbase c hc)
    · decide
    · exact h.noNul c hc
  · exact Nat.lt_of_le_of_lt (byteLength_next p h.noSlash) hroom
  · -- Only an empty name leaves a slash at the end, and it stays in the directory.
    have hempty : name = "" := by
      by_contra hne
      have hnil : name.toList ≠ [] := fun hnil => hne (String.toList_eq_nil_iff.mp hnil)
      rw [next, Path.toList_join_gap _ (relative_of_noSlash h.noSlash), ← List.append_assoc,
        List.getLast?_append, List.getLast?_eq_some_getLast hnil] at hends
      exact h.noSlash (Option.some.inj hends ▸ List.getLast_mem hnil)
    subst hempty
    obtain rfl : l = m := Except.ok.inj h.walk
    exact h.directory

/-- A component that stands for itself is found. -/
theorem LeadsTo.literalPath? : literalPath? d p name = some (next p name) := by
  rw [literalPath?_eq]
  split
  · rw [if_pos ((isDirectory_of_find hfind).trans h.directory)]
  · rename_i hdots
    obtain ⟨item, hitem⟩ := Option.isSome_iff_exists.mp (h.isSome.resolve_right hdots)
    have hthere : exists? d (next p name) = true := by
      rw [exists?, look_of_find (h.find_next hp hfind hopens hroom) hitem]
    rw [if_pos hthere]

end Next

/-- What is looked up is looked up in a directory. -/
theorem isDirectoryAt_of_literalPath? (hp : Shown p) (hfind : d.find p = .ok l)
    (hname : '/' ∉ name.toList) (h : literalPath? d p name = some path) :
    d.isDirectoryAt l = true := by
  obtain ⟨rfl, hopens⟩ := literalPath?_some hp hname h
  rw [literalPath?_eq] at h
  split at h
  · split at h
    · rename_i hdir
      rwa [isDirectory_of_find hfind] at hdir
    · exact absurd h (by simp)
  · split at h
    · rename_i hthere
      unfold exists? at hthere
      split at hthere
      · rename_i item hlook
        obtain ⟨hnext, -⟩ := look_ok hlook
        have hwalk := (approach_next hp hfind hname).symm.trans (approach_of_find hnext)
        by_cases hempty : name = ""
        · -- Behind an empty name there is a slash at the end.
          subst hempty
          have hfirm := hp.resolve_right fun hstart => hopens hstart rfl
          rw [next, hfirm.base] at hnext hwalk
          rw [Except.ok.inj hwalk]
          exact isDirectoryAt_of_endsInSlash hnext (Path.endsInSlash_join_empty hfirm.nonempty)
        · rw [steps_of_ne hname hempty] at hwalk
          obtain ⟨k, hstep, -⟩ := walk_cons hwalk
          exact isDirectoryAt_of_step hstep
      · exact absurd hthere (by simp)
    · exact absurd h (by simp)

/-! ## Ahead of a search -/

/-- Whether a path is that of the file at a location. -/
def isFileAt (d : Disk) (l : Location) (p : Path) : Bool :=
  d.isFile p && decide (p.destination d.start = l)

/-- **A file lies ahead of a search:** the search has reached a path, the file is below it by some
names, and all paths on the way have room. Where searches start, dots in the pattern are not
followed by an empty component. -/
structure Ahead (d : Disk) (components : List Pattern) (p : Path) (l : Location)
    (names : List String) : Prop where
  shown : Shown p
  opens : p = ⟨"."⟩ → (components.dropWhile (· == literal ['.'])).head? ≠ some []
  find : d.find p = .ok l
  file : ∃ bytes t, d.seen (l ++ names) = some (.file bytes t)
  room : byteLength p.text.toList + 2 * components.length + span names < pathLimit

section Ahead

variable {q r : Pattern} {components rest : List Pattern}

theorem Ahead.isSome (h : Ahead d components p l names) : (d.seen (l ++ names)).isSome = true := by
  obtain ⟨bytes, t, hfile⟩ := h.file
  rw [hfile]
  rfl

theorem Shown.firm_next (hp : Shown p) (hname : PlainName name) : Firm (Glob.next p name) := by
  rcases hp with hfirm | rfl
  · exact hfirm.next hname.noSlash
  · rw [next_start hname.noSlash]
    exact firm_of_piece hname.noSlash (isStill_of_plain hname)

/-- **Names that are there are followed to where they lead.** -/
theorem find_follow (hproper : d.IsProper) (hp : Shown p) (hfind : d.find p = .ok l)
    (hseen : (d.seen (l ++ names)).isSome = true)
    (hroom : byteLength p.text.toList + span names < pathLimit) :
    d.find (follow p names) = .ok (l ++ names) ∧ Shown (follow p names) ∧
      byteLength (follow p names).text.toList ≤ byteLength p.text.toList + span names := by
  induction names generalizing p l with
  | nil => exact ⟨by rw [List.append_nil]; exact hfind, hp, Nat.le_refl _⟩
  | cons name names ih =>
    rw [List.append_cons] at hseen ⊢
    have hplain := (hproper.named _ hseen name (by simp)).toPlainName
    have hopens : p = ⟨"."⟩ → name ≠ "" := fun _ hnil => hplain.notEmpty (hnil ▸ rfl)
    have hlong := byteLength_next p hplain.noSlash
    rw [span_cons] at hroom ⊢
    have hleads :=
      LeadsTo.of_seen hproper (hproper.tree.isSome_of_prefix (List.prefix_append _ names) hseen)
    have hnext := hleads.find_next hp hfind hopens (by omega)
    obtain ⟨hfound, hshown, hlength⟩ := ih (hp.next hplain.noSlash hopens) hnext hseen (by omega)
    exact ⟨hfound, hshown, by rw [follow_cons]; omega⟩

/-- A search that goes on along names that are there has the file ahead. -/
theorem Ahead.follow {back : List String} (hproper : d.IsProper)
    (h : Ahead d components p l (name :: names ++ back)) (hrest : rest.length ≤ components.length) :
    Ahead d rest (follow p (name :: names)) (l ++ name :: names) back := by
  have hseen := h.isSome
  have hroom := h.room
  rw [← List.append_assoc] at hseen
  rw [span_append] at hroom
  obtain ⟨hfound, hshown, hlength⟩ := find_follow hproper h.shown h.find
    (hproper.tree.isSome_of_prefix (List.prefix_append _ _) hseen) (by omega)
  refine ⟨hshown, ?_, hfound, by rw [List.append_assoc]; exact h.file, by omega⟩
  -- Behind a name the path is not the one that searches start from.
  intro hstart
  have hplain : ∀ n ∈ name :: names, PlainName n := fun n hn =>
    (hproper.named _ hseen n (List.mem_append_left _ (List.mem_append_right _ hn))).toPlainName
  obtain ⟨hname, hnames⟩ := List.forall_mem_cons.mp hplain
  have hfirm := ((h.shown.firm_next hname).joinNames fun n hn => (hnames n hn).noSlash).1
  rw [← (h.shown.firm_next hname).follow fun n hn => (hnames n hn).noSlash, ← follow_cons] at hfirm
  exact absurd hstart hfirm.ne_start

theorem Ahead.next (hproper : d.IsProper) (h : Ahead d components p l (name :: names))
    (hrest : rest.length ≤ components.length) :
    Ahead d rest (Glob.next p name) (l ++ [name]) names :=
  @Ahead.follow d p l name [] components rest names hproper h hrest

theorem Ahead.ne_stuck (h : Ahead d (literal [] :: rest) p l names) : p ≠ ⟨"."⟩ :=
  fun hstart => h.opens hstart rfl

/-- A component that stays leaves the file ahead. -/
theorem Ahead.stay (h : Ahead d (literal name.toList :: rest) p l names)
    (hdir : d.isDirectoryAt l = true) (hstill : isStill name = true) :
    literalPath? d p name = some (Glob.next p name) ∧ Ahead d rest (Glob.next p name) l names := by
  have hleads := LeadsTo.stay hdir hstill
  have hopens : p = ⟨"."⟩ → name ≠ "" := by
    rintro hstart rfl
    exact h.ne_stuck hstart
  have hshort : byteLength name.toList ≤ 1 := by
    rcases isStill_iff.mp hstill with rfl | rfl <;> decide
  have hlong := byteLength_next p hleads.noSlash
  have hroom := h.room
  rw [List.length_cons] at hroom
  refine ⟨hleads.literalPath? h.shown h.find hopens (by omega), h.shown.next hleads.noSlash hopens,
    fun hstart => ?_,
    hleads.find_next h.shown h.find hopens (by omega), h.file, by omega⟩
  -- Where searches start, it is a dot that stays.
  have hp : p = ⟨"."⟩ := by
    refine h.shown.resolve_left fun hfirm => ?_
    exact (hfirm.next hleads.noSlash).ne_start hstart
  have hdot : name = "." := (isStill_iff.mp hstill).resolve_left (hopens hp)
  have hbefore := h.opens hp
  rw [hdot] at hbefore
  exact hbefore

/-! ## What does not count -/

/-- Nothing is found in another direction. -/
theorem countP_elsewhere (hproper : d.IsProper) (hinner : ∀ q ∈ components, Inner q) (hp : Shown p)
    (h : ¬ p.destination d.start <+: l) : (expand d components p).countP (isFileAt d l) = 0 := by
  rw [List.countP_eq_zero]
  intro path hpath hfile
  obtain ⟨names, htrail, rfl⟩ := exists_trail hproper hinner hp hpath
  rw [isFileAt, Bool.and_eq_true, decide_eq_true_iff, htrail.destination hp] at hfile
  exact h ⟨_, hfile.2⟩

/-- A path with plain names behind it is the place below. -/
theorem destination_follow (hp : Shown p) (hfind : d.find p = .ok l)
    (hnames : ∀ n ∈ names, PlainName n) :
    (Glob.follow p names).destination d.start = l ++ names := by
  rw [(Trail.of_plain p hnames).destination hp, meaning_of_plain hnames, ← find_ok hfind]

/-- What is found from some names on lies below them. -/
theorem prefix_of_countP_ne_zero (hproper : d.IsProper) (hinner : ∀ q ∈ components, Inner q)
    (hp : Shown p) (hfind : d.find p = .ok l) (hnames : ∀ n ∈ names, PlainName n)
    (h : (expand d components (Glob.follow p names)).countP (isFileAt d m) ≠ 0) :
    l ++ names <+: m := by
  by_contra hnot
  rw [← destination_follow hp hfind hnames] at hnot
  exact h (countP_elsewhere hproper hinner (hp.follow hnames) hnot)

/-- Nothing is found below a file. -/
theorem expand_of_file (hq : Inner q) (hp : Shown p) (hfind : d.find p = .ok l)
    (hdir : d.isDirectoryAt l = false) : expand d (q :: rest) p = [] := by
  cases hliteral : q.literal? with
  | none => exact expand_of_not_directory hliteral ((isDirectory_of_find hfind).trans hdir)
  | some text =>
    rw [expand_of_literal hliteral]
    cases hpath : literalPath? d p (String.ofList text) with
    | none => rfl
    | some path =>
      have hname : '/' ∉ (String.ofList text).toList := by
        rw [String.toList_ofList]
        exact hq.noSlash text hliteral
      rw [isDirectoryAt_of_literalPath? hp hfind hname hpath] at hdir
      exact absurd hdir (by simp)

end Ahead

end AltRender.Glob

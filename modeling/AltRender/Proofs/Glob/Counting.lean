import AltRender.Proofs.Glob.Ahead
import Mathlib.Algebra.BigOperators.Group.List.Basic

/-!
# `Proofs/Glob/Counting` — how often a file is found

A search finds a file once for each way in which its pattern stands for the names on the way to it
(`counted`). This is shown component by component, for a file that lies ahead of the search
(`Ahead`): what is found in another direction than that of the file does not count, and all that is
left is the one name that leads there, or behind two stars the directories on the way. No path on
the way may be too long to be asked for.

The count is what makes two stars hard. They stand for any number of names, so that one file may be
found along several ways, and what is found at each directory below has to be added up: a sum over
all places below, of which only those on the way to the file give anything (`sum_waysBelow`).
-/

set_option autoImplicit false

namespace AltRender.Glob

open AltRender.Disk AltRender.Text

variable {d : Disk} {p path : Path} {l m : Location} {name : String} {names : List String}

/-! ## Counting -/

/-- The search finds each file that lies ahead once for each way to it. -/
def Counted (d : Disk) (components : List Pattern) : Prop :=
  ∀ {p : Path} {l : Location} {names : List String}, Ahead d components p l names →
    (expand d components p).countP (isFileAt d (l ++ names)) = ways components names

section Ahead

variable {q r : Pattern} {components rest : List Pattern}

/-- With a component to go, the file that lies ahead is farther down. -/
theorem Counted.of_cons (hproper : d.IsProper) (hq : Inner q)
    (h :
      ∀ {p : Path} {l : Location} {name : String} {names : List String},
        Ahead d (q :: rest) p l (name :: names) → d.isDirectoryAt l = true →
        (expand d (q :: rest) p).countP (isFileAt d (l ++ name :: names)) =
          ways (q :: rest) (name :: names)) : Counted d (q :: rest) := by
  intro p l names hahead
  cases names with
  | nil =>
    obtain ⟨bytes, t, hfile⟩ := hahead.file
    rw [List.append_nil] at hfile
    rw [expand_of_file hq hahead.shown hahead.find (not_isDirectoryAt_of_file hfile), ways_nil]
    rfl
  | cons name names => exact h hahead (hproper.tree.isDirectoryAt_of_below hahead.isSome)

/-! ## Component by component -/

theorem Counted.nil (d : Disk) : Counted d [] := by
  intro p l names hahead
  obtain ⟨bytes, t, hfile⟩ := hahead.file
  rw [show expand d [] p = [p] by rw [expand.eq_def], List.countP_singleton, isFileAt,
    ← find_ok hahead.find]
  cases names with
  | nil =>
    rw [List.append_nil] at hfile ⊢
    simp [isFile_of_find hahead.find hfile, ways]
  | cons name names => simp [ways]

/-- A component that stands for itself leads on if it is the next name, and stays if it has no
meaning. -/
theorem Counted.literal (hproper : d.IsProper) {text : List Char}
    (hliteral : q.literal? = some text) (hinner : ∀ t ∈ q :: rest, Inner t)
    (hrest : Counted d rest) :
    Counted d (q :: rest) := by
  obtain ⟨hq, hothers⟩ := List.forall_mem_cons.mp hinner
  refine Counted.of_cons hproper hq fun {p l n names} hahead hdir => ?_
  obtain ⟨name, rfl⟩ : ∃ name : String, name.toList = text :=
    ⟨String.ofList text, String.toList_ofList⟩
  have hname := hq.noSlash _ hliteral
  have hup : name ≠ ".." := by
    have hne := hq.ne_up hliteral
    rwa [String.ofList_toList] at hne
  obtain rfl := literal_of_literal? hliteral
  rw [expand_of_literal hliteral, String.ofList_toList]
  cases hstill : isStill name with
  | true =>
    obtain ⟨hpath, hahead'⟩ := hahead.stay hdir hstill
    rw [hpath, ways_stay ((isStay_literal _).trans hstill) (List.cons_ne_nil _ _)]
    exact hrest hahead'
  | false =>
    rw [ways_name ((isStay_literal _).trans hstill) (isAnyPath_literal _)]
    have hopens : p = ⟨"."⟩ → name ≠ "" := by
      rintro - rfl
      exact absurd hstill (by decide)
    -- The literal leads on only from the name that it spells; for another name nothing the
    -- expansion finds below it can be the place asked for.
    by_cases hsame : n = name
    · subst hsame
      have hseen := hproper.tree.isSome_of_prefix (m := l ++ [n]) (by simp) hahead.isSome
      have hroom := hahead.room
      rw [List.length_cons, span_cons] at hroom
      rw [(LeadsTo.of_seen hproper hseen).literalPath? hahead.shown hahead.find hopens (by omega),
        if_pos ((fits_literal _ _).mpr rfl), List.append_cons]
      exact hrest (hahead.next hproper (Nat.le_succ _))
    · rw [if_neg fun hfits => hsame (String.toList_inj.mp ((fits_literal _ _).mp hfits))]
      cases hpath : literalPath? d p name with
      | none => rfl
      | some path =>
        obtain ⟨rfl, -⟩ := literalPath?_some hahead.shown hname hpath
        refine countP_elsewhere hproper hothers (hahead.shown.next hname hopens) fun hprefix => ?_
        have hplace := (Trail.singleton hname hup hopens).destination hahead.shown d.start
        rw [meaning, List.filter_cons_of_pos (by simp [hstill]), ← find_ok hahead.find] at hplace
        rw [show next p name = Glob.follow p [name] from rfl, hplace, List.prefix_append_right_inj]
          at hprefix
        exact hsame (List.cons_prefix_cons.mp hprefix).1.symm

theorem fileName?_next (hp : Shown p) (hname : PlainName name) :
    (next p name).fileName? = some name := by
  have hlast : (next p name).components.getLast? = some (.name name) := by
    rcases hp with hfirm | rfl
    · rw [next, hfirm.base, Path.components_join_of_ne_nil hfirm.nonempty hname.isAbsolute,
        pieces_of_noSlash hname.noSlash, List.filterMap_cons_some hname.component?,
        List.filterMap_nil, List.getLast?_concat]
    · have hmeaning := isStill_of_plain hname
      simp only [isStill, Path.isRedundant, Bool.or_eq_false_iff, beq_eq_false_iff_ne] at hmeaning
      rw [next_start hname.noSlash, Path.components_eq (pieces_of_noSlash hname.noSlash), leadOf,
        if_neg hmeaning.1, if_neg hmeaning.2, hname.component?]
      rfl
  rw [Path.fileName?, hlast]

theorem pathsIn_eq (h : d.names p = .ok names) :
    pathsIn d p = (names.mergeSort byteOrder).map (next p) := by
  rw [pathsIn, h]
  rfl

/-- A component takes the next name if it stands for it. -/
theorem Counted.oneName (hproper : d.IsProper) (hliteral : q.literal? = none)
    (hpath : q.isAnyPath = false) (hinner : ∀ t ∈ q :: rest, Inner t) (hrest : Counted d rest) :
    Counted d (q :: rest) := by
  obtain ⟨hq, hinner⟩ := List.forall_mem_cons.mp hinner
  refine Counted.of_cons hproper hq fun {p l name names} hahead hdir => ?_
  have hnames : d.names p = .ok (d.namesAt l) := by
    simp only [Disk.names, hahead.find, hdir, bind, Except.bind, if_true]
  have hstay : q.isStay = false := by rw [Pattern.isStay, hliteral]
  have hproperName : ∀ n ∈ d.namesAt l, PlainName n :=
    fun n hn => (hproper.named _ (mem_namesAt.mp hn) n (by simp)).toPlainName
  have hmem : name ∈ (d.namesAt l).mergeSort byteOrder :=
    List.mem_mergeSort.mpr (mem_namesAt.mpr (hproper.tree.isSome_of_prefix (by simp) hahead.isSome))
  have hnodup : ((d.namesAt l).mergeSort byteOrder).Nodup :=
    (List.mergeSort_perm _ _).nodup_iff.mpr (nodup_namesAt d l)
  have hplain := hproperName name (List.mem_mergeSort.mp hmem)
  rw [expand_name hliteral hpath (hq.dotPaths hliteral p)
    ((isDirectory_of_find hahead.find).trans hdir), pathsIn_eq hnames,
    List.countP_flatMap, List.map_map, ways_name hstay hpath]
  -- All other names lead elsewhere.
  rw [List.sum_map_eq_nsmul_single name _ fun n hne hn => ?_, List.count_eq_one_of_mem hnodup hmem,
    one_nsmul]
  · have hfits : fitsName q (next p name) = q.fits name.toList := by
      rw [fitsName, fileName?_next hahead.shown hplain]
    show (if fitsName q (next p name) then _ else _ : List Path).countP _ = _
    rw [hfits]
    split
    · rw [List.append_cons]
      exact hrest (hahead.next hproper (Nat.le_succ _))
    · rfl
  · have hn := hproperName n (List.mem_mergeSort.mp hn)
    show (if fitsName q (next p n) then _ else _ : List Path).countP _ = 0
    split
    · by_contra hfound
      have hprefix :=
        @prefix_of_countP_ne_zero d p l _ [n] rest hproper hinner hahead.shown hahead.find
        (List.forall_mem_singleton.mpr hn) hfound
      rw [List.prefix_append_right_inj] at hprefix
      exact hne (List.cons_prefix_cons.mp hprefix).1
    · rfl

/-- Two stars twice find what they find once. -/
theorem Counted.again (hproper : d.IsProper) (hliteral : q.literal? = none)
    (hpath : q.isAnyPath = true) (hr : r.isAnyPath = true) (hq : Inner q)
    (hrest : Counted d (r :: rest)) : Counted d (q :: r :: rest) := by
  refine Counted.of_cons hproper hq fun {p l name names} hahead hdir => ?_
  rw [expand_again hliteral hpath hr ((isDirectory_of_find hahead.find).trans hdir),
    ways_again hpath hr]
  have hroom := hahead.room
  rw [List.length_cons] at hroom
  have hne : ∀ text, r ≠ Glob.literal text := by
    rintro text rfl
    exact absurd hr (by simp [isAnyPath_literal])
  refine hrest ⟨hahead.shown, fun _ => ?_, hahead.find, hahead.file, by omega⟩
  rw [List.dropWhile_cons_of_neg (by simpa using hne ['.'])]
  exact fun hempty => hne [] (Option.some.inj hempty)

/-- Two stars at the end find directories. -/
theorem Counted.last (hproper : d.IsProper) (hliteral : q.literal? = none)
    (hpath : q.isAnyPath = true) (hq : Inner q) : Counted d [q] := by
  refine Counted.of_cons hproper hq fun {p l name names} hahead hdir => ?_
  rw [expand_below_nil hliteral hpath ((isDirectory_of_find hahead.find).trans hdir),
    ways_anyPath_nil hpath, List.countP_eq_zero]
  intro path hfound hfile
  rw [isFileAt, Bool.and_eq_true] at hfile
  have hdirectory := (List.mem_filter.mp hfound).2
  obtain ⟨bytes, t, hlook⟩ := look_of_isFile hfile.1
  rw [isDirectory, hlook] at hdirectory
  exact absurd hdirectory (by simp [Item.isFile])

/-- What is found below, place by place, comes to the ways to go down to one of the places on the
way. -/
theorem sum_waysBelow {onwards : List String → Nat} {f : Location → Nat} {places : List Location}
    (hnodup : places.Nodup)
    (hway : ∀ front name back, names = front ++ name :: back → l ++ (front ++ [name]) ∈ places ∧
      f (l ++ (front ++ [name])) = if r.fits name.toList then onwards back else 0)
    (haside : ∀ m ∈ places, f m ≠ 0 →
      ∃ front name back, names = front ++ name :: back ∧ m = l ++ (front ++ [name])) :
    (places.map f).sum = waysBelow r onwards names := by
  induction names generalizing l places with
  | nil =>
    refine List.sum_eq_zero fun n hn => ?_
    obtain ⟨m, hm, rfl⟩ := List.mem_map.mp hn
    by_contra hne
    obtain ⟨front, name, back, hsplit, -⟩ := haside m hm hne
    exact absurd hsplit (by simp)
  | cons name names ih =>
    obtain ⟨hmem, hfirst⟩ := hway [] name names rfl
    rw [List.nil_append] at hmem hfirst
    -- The first place on the way is taken out of the others.
    obtain ⟨before, after, rfl⟩ := List.append_of_mem hmem
    have hperm : (before ++ (l ++ [name]) :: after).Perm ((l ++ [name]) :: (before ++ after)) :=
      List.perm_middle
    obtain ⟨hother, hnodup⟩ := List.nodup_cons.mp (hperm.nodup_iff.mp hnodup)
    rw [waysBelow, ← hfirst, (hperm.map f).sum_eq, List.map_cons, List.sum_cons]
    refine congrArg _ (@ih (l ++ [name]) _ hnodup (fun front n back hsplit => ?_) fun m hm hne =>
      ?_)
    · obtain ⟨hthere, hvalue⟩ := hway (name :: front) n back (by rw [hsplit, List.cons_append])
      rw [List.append_assoc, List.singleton_append, ← List.cons_append]
      refine ⟨(List.mem_cons.mp (hperm.mem_iff.mp hthere)).resolve_left fun heq => ?_, hvalue⟩
      exact absurd (congrArg List.length heq) (by simp)
    · obtain ⟨front, n, back, hsplit, rfl⟩ :=
        haside m (hperm.mem_iff.mpr (List.mem_cons_of_mem _ hm)) hne
      cases front with
      | nil =>
        obtain ⟨rfl, -⟩ := List.cons.inj hsplit
        exact absurd hm hother
      | cons k front =>
        obtain ⟨rfl, rfl⟩ := List.cons.inj hsplit
        exact ⟨front, n, back, rfl, by simp⟩

/-- A component that stays stands for no name. -/
theorem waysBelow_of_isStay {onwards : List String → Nat} (hstay : r.isStay = true)
    (hnames : ∀ n ∈ names, PlainName n) : waysBelow r onwards names = 0 := by
  refine Nat.eq_zero_of_not_pos fun hpos => ?_
  obtain ⟨front, n, back, hsplit, hfits, -⟩ := waysBelow_pos_iff.mp hpos
  have hstill := isStill_of_plain (hnames n (by rw [hsplit]; simp))
  unfold Pattern.isStay at hstay
  split at hstay
  · rename_i text htext
    rw [literal_of_literal? htext] at hfits
    rw [isStill, (fits_literal _ _).mp hfits, hstay] at hstill
    exact absurd hstill (by simp)
  · exact absurd hstay (by simp)

/-- A path with names behind it has the last of them as its own. -/
theorem fitsName_follow (hp : Shown p) (hnames : ∀ n ∈ names ++ [name], PlainName n) :
    fitsName r (Glob.follow p (names ++ [name])) = r.fits name.toList := by
  obtain ⟨hfront, hname⟩ := List.forall_mem_append.mp hnames
  rw [follow_append, follow_cons, fitsName]
  rw [show Glob.follow (next (Glob.follow p names) name) [] =
    next (Glob.follow p names) name from rfl,
    fileName?_next (hp.follow hfront) (hname name List.mem_cons_self)]

/-- Two stars stand for the directories on the way to a name that the next component stands for. -/
theorem Counted.twoStars (hproper : d.IsProper) (hliteral : q.literal? = none)
    (hpath : q.isAnyPath = true) (hr : r.isAnyPath = false) (hinner : ∀ t ∈ q :: r :: rest, Inner t)
    (hrest : Counted d rest) : Counted d (q :: r :: rest) := by
  obtain ⟨hq, hinner⟩ := List.forall_mem_cons.mp hinner
  obtain ⟨-, hinner⟩ := List.forall_mem_cons.mp hinner
  refine Counted.of_cons hproper hq fun {p l name names} hahead hdir => ?_
  have hplain : ∀ n ∈ name :: names, PlainName n :=
    fun n hn => (hproper.named _ hahead.isSome n (List.mem_append_right _ hn)).toPlainName
  rw [expand_below hliteral hpath hr ((isDirectory_of_find hahead.find).trans hdir), pathsBelow,
    hahead.find, List.countP_flatMap, List.map_map]
  -- Each place below is reached once, and only those on the way to the file count: the sum over all
  -- of them is that over the splits of its names.
  have hsum := @sum_waysBelow l (name :: names) r (ways rest)
    (fun m => (if fitsName r (joinNames (base p) (m.drop l.length))
      then expand d rest (joinNames (base p) (m.drop l.length))
      else []).countP (isFileAt d (l ++ name :: names))) (below d l) (nodup_below d l) ?_ ?_
  · refine hsum.trans ?_
    rw [ways_below hpath hr]
    split
    · rename_i hstay
      exact waysBelow_of_isStay hstay hplain
    · rfl
  · intro front n back hsplit
    rw [hsplit] at hahead hplain ⊢
    obtain ⟨first, onward, hcons⟩ : ∃ first onward, front ++ [n] = first :: onward :=
      List.exists_cons_of_ne_nil (by simp)
    have hsplit' : front ++ n :: back = first :: onward ++ back := by rw [← hcons]; simp
    have hway : ∀ k ∈ front ++ [n], PlainName k := fun k hk => hplain k (by
      rcases List.mem_append.mp hk with hk | hk
      · exact List.mem_append_left _ hk
      · exact List.mem_append_right _ (List.mem_singleton.mp hk ▸ List.mem_cons_self))
    have hpath' : joinNames (base p) (front ++ [n]) = Glob.follow p (front ++ [n]) := by
      rw [hcons] at hway ⊢
      exact joinNames_base hahead.shown hway
    refine ⟨mem_below.mpr ⟨⟨first, onward, by rw [hcons]⟩, ?_⟩, ?_⟩
    · refine hproper.tree.isSome_of_prefix ?_ hahead.isSome
      rw [hsplit', hcons]
      exact ⟨back, by simp⟩
    · simp only [List.drop_left, hpath', fitsName_follow hahead.shown hway]
      split
      · rw [hsplit'] at hahead
        rw [hsplit', hcons, ← List.append_assoc]
        exact hrest (Ahead.follow hproper hahead (by simp; omega))
      · rfl
  · intro m hm hne
    obtain ⟨⟨first, onward, rfl⟩, hseen⟩ := mem_below.mp hm
    have hway : ∀ k ∈ first :: onward, PlainName k :=
      fun k hk => (hproper.named _ hseen k (List.mem_append_right _ hk)).toPlainName
    simp only [List.drop_left, joinNames_base hahead.shown hway] at hne
    split at hne
    · have hprefix := prefix_of_countP_ne_zero hproper hinner hahead.shown hahead.find hway hne
      rw [List.prefix_append_right_inj] at hprefix
      obtain ⟨back, hback⟩ := hprefix
      obtain ⟨front, n, hlast⟩ :=
        List.eq_nil_or_concat' (first :: onward) |>.resolve_left (List.cons_ne_nil _ _)
      exact ⟨front, n, back, by rw [← hback, hlast]; simp, by rw [hlast]⟩
    · exact absurd rfl hne

/-! ## All components -/

theorem literal?_of_isAnyPath (h : q.isAnyPath = true) : q.literal? = none := by
  cases hliteral : q.literal? with
  | none => rfl
  | some text =>
    rw [literal_of_literal? hliteral, isAnyPath_literal] at h
    exact absurd h (by simp)

/-- A component that is not two stars leads one name down at most. -/
theorem Counted.cons (hproper : d.IsProper) (hpath : q.isAnyPath = false)
    (hinner : ∀ t ∈ q :: rest, Inner t) (hrest : Counted d rest) : Counted d (q :: rest) := by
  cases hliteral : q.literal? with
  | some text => exact Counted.literal hproper hliteral hinner hrest
  | none => exact Counted.oneName hproper hliteral hpath hinner hrest

/-- **A file that lies ahead is found once for each way in which the pattern stands for the names on
the way to it.** -/
theorem counted (hproper : d.IsProper) :
    ∀ components : List Pattern, (∀ q ∈ components, Inner q) → Counted d components
  | [], _ => Counted.nil d
  | [q], hinner => by
    cases hpath : q.isAnyPath with
    | false => exact Counted.cons hproper hpath hinner (Counted.nil d)
    | true =>
      exact Counted.last hproper (literal?_of_isAnyPath hpath) hpath (hinner q List.mem_cons_self)
  | q :: r :: rest, hinner => by
    obtain ⟨hq, hothers⟩ := List.forall_mem_cons.mp hinner
    cases hpath : q.isAnyPath with
    | false => exact Counted.cons hproper hpath hinner (counted hproper (r :: rest) hothers)
    | true =>
      have hliteral := literal?_of_isAnyPath hpath
      cases hr : r.isAnyPath with
      | true =>
        exact Counted.again hproper hliteral hpath hr hq (counted hproper (r :: rest) hothers)
      | false =>
        exact Counted.twoStars hproper hliteral hpath hr hinner
          (counted hproper rest (List.forall_mem_cons.mp hothers).2)

end Ahead

end AltRender.Glob

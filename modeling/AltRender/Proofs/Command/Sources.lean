import AltRender.Command.Run
import AltRender.Proofs.Command.Root
import AltRender.Proofs.Directive.Grammar
import AltRender.Proofs.Glob.Counting

/-!
# `Proofs/Command/Sources` — which sources a pattern leads to

A relative pattern leads to a source for each file below the root that it stands for, once for each
way in which it does, and to nothing else (`allSources_exact`). That is put together from two sides.
How often the search finds a file is known for any pattern (`counted`); what a file that was found
behind the root is described as, for any root that stands for itself (`describe_found`).

The empty pattern and some that begin with dots are cases of their own. Behind the root they ask for
directories only, or lead nowhere from where searches start (`isIdle`).

A root whose name has a bracket in it is read as a pattern and not found at all
(`allSources_not_exact`).
-/

set_option autoImplicit false

namespace AltRender.Command

open AltRender.Disk AltRender.Text AltRender.Glob

variable {d : Disk} {root p : Path} {pattern : String} {names : List String}

/-! ## The pattern -/

theorem exists_of_mem_forall₂ {α β : Type} {R : α → β → Prop} {xs : List α} {ys : List β}
    (h : List.Forall₂ R xs ys) {y : β} (hy : y ∈ ys) : ∃ x ∈ xs, R x y := by
  induction h with
  | nil => exact absurd hy List.not_mem_nil
  | @cons x y' xs ys hone _ ih =>
    rcases List.mem_cons.mp hy with rfl | hy
    · exact ⟨x, List.mem_cons_self, hone⟩
    · obtain ⟨x', hx', hR⟩ := ih hy
      exact ⟨x', List.mem_cons_of_mem _ hx', hR⟩

theorem countP_forall₂ {α β : Type} {R : α → β → Prop} {xs : List α} {ys : List β}
    (h : List.Forall₂ R xs ys) {f : α → Bool} {g : β → Bool} (hsame : ∀ x y, R x y → f x = g y) :
    xs.countP f = ys.countP g := by
  induction h with
  | nil => rfl
  | cons hone _ ih => rw [List.countP_cons, List.countP_cons, ih, hsame _ _ hone]

theorem ofText_empty : Search.ofText "" = .ok ⟨⟨"."⟩, [[]], false⟩ := by
  have hparse : parse [] = .ok [] := by rw [parse, parseFrom]
  rw [Search.ofText]
  simp [hparse, piecesOf, cut, bind, Except.bind, pure, Except.pure]

/-- **A relative pattern that stays below the root:** no component that begins with a dot stands for
two dots. -/
structure InnerPattern (pattern : String) (search : Search) : Prop where
  isLocal : Source.isRemoteLocation pattern = false
  relative : pattern.toList.head? ≠ some '/'
  reads : Search.ofText pattern = .ok search
  noUp : ∀ q ∈ search.components, q.head? = some (.char '.') → q.fits ['.', '.'] = false

theorem InnerPattern.inner {search : Search} (h : InnerPattern pattern search) :
    ∀ q ∈ search.components, Inner q := by
  intro q hq
  refine ⟨fun text htext => ?_, h.noUp q hq⟩
  by_cases hne : pattern.toList = []
  · obtain rfl : pattern = "" := String.toList_eq_nil_iff.mp hne
    obtain rfl := Except.ok.inj (h.reads.symm.trans ofText_empty)
    obtain rfl := List.mem_singleton.mp hq
    obtain rfl := Option.some.inj htext
    exact List.not_mem_nil
  · obtain ⟨-, hcomponents, -⟩ := ofText_ok hne h.relative h.reads
    obtain ⟨piece, hpiece, hparse⟩ :=
      exists_of_mem_forall₂ (Directive.mapM_eq_ok_iff.mp hcomponents) hq
    rw [literal?_of_parseFrom hparse htext]
    exact not_mem_of_mem_cut (mem_cut_of_mem_piecesOf hpiece)

/-- Whether components begin with dots and an empty one behind them. Where searches start, they lead
nowhere. -/
def opensEmpty (components : List Pattern) : Bool :=
  (components.dropWhile (· == literal ['.'])).head? == some []

theorem expand_opensEmpty {components : List Pattern} (h : opensEmpty components = true) :
    expand d components ⟨"."⟩ = [] := by
  induction components with
  | nil => exact absurd h (by decide)
  | cons q components ih =>
    by_cases hdot : q = literal ['.']
    · subst hdot
      rw [opensEmpty, List.dropWhile_cons_of_pos (by simp)] at h
      rw [expand_cons_literal]
      rcases literalPath?_cases d ⟨"."⟩ (String.ofList ['.']) with hnone | hsome
      · rw [hnone]
      · rw [hsome]
        exact ih h
    · rw [opensEmpty, List.dropWhile_cons_of_neg (by simpa using hdot), beq_iff_eq, List.head?_cons]
        at h
      obtain rfl : q = literal [] := Option.some.inj h
      rw [expand_cons_literal]
      cases hpath : literalPath? d ⟨"."⟩ (String.ofList []) with
      | none => rfl
      | some path => exact absurd rfl ((literalPath?_some (.inr rfl) (by decide) hpath).2 rfl)

/-- **Whether a search behind a root finds no file,** whatever is there: it is for directories, or
it leads nowhere from where searches start. -/
def isIdle (root : Path) (search : Search) : Bool :=
  search.directoriesOnly || (isStart root && opensEmpty search.components)

/-- A search for directories finds no file. -/
theorem isFile_of_directoriesOnly {search : Search} (h : search.directoriesOnly = true)
    {path : Path} (hpath : path ∈ search.run d) : d.isFile path = false := by
  have hdir : d.isDirectory path = true := by simpa [h] using (List.mem_filter.mp hpath).2
  rw [Bool.eq_false_iff]
  intro hfile
  obtain ⟨bytes, t, hlook⟩ := look_of_isFile hfile
  rw [isDirectory, hlook] at hdir
  exact absurd hdir (by simp [Item.isFile])

theorem countP_of_directoriesOnly {search : Search} (h : search.directoriesOnly = true)
    (l : Location) : (search.run d).countP (isFileAt d l) = 0 := by
  rw [List.countP_eq_zero]
  intro path hpath hfile
  rw [isFileAt, isFile_of_directoriesOnly h hpath] at hfile
  exact absurd hfile (by simp)

/-- Behind the root the empty pattern leaves a slash at the end, and asks for directories only. -/
theorem LiteralRoot.search_empty (h : LiteralRoot d root) :
    ∃ found, Search.ofText (root.join ⟨""⟩).text = .ok found ∧ found.directoriesOnly = true := by
  have hliteral : ∀ c ∈ (root.join ⟨""⟩).text.toList, isLiteral c = true := by
    intro c hc
    rcases Path.mem_join root (by decide) hc with hc | rfl | hc
    · exact h.literal c hc
    · decide
    · exact absurd hc List.not_mem_nil
  obtain ⟨found, hread, honly⟩ := exists_ofText hliteral
  rw [Path.endsInSlash_join_empty h.fit.nonempty] at honly
  exact ⟨found, hread, honly⟩

/-- There is room for the paths of all files below the root: with the root in front, and two bytes
for each component of the pattern. -/
def HasRoom (d : Disk) (root : Path) (components : List Pattern) : Prop :=
  ∀ names bytes t, d.seen (root.destination d.start ++ names) = some (.file bytes t) →
    byteLength root.text.toList + 2 * (components.length + 1) + span names < pathLimit

/-- **The files that a search behind the root finds** are found by trails, and each once for each
way to it. -/
theorem exists_search {search : Search} (hroot : LiteralRoot d root) (hproper : d.IsProper)
    (hpattern : InnerPattern pattern search) (hroom : HasRoom d root search.components) :
    ∃ found, Search.ofText (root.join ⟨pattern⟩).text = .ok found ∧
      (∀ path ∈ found.run d, d.isFile path = true →
        ∃ p names, Leads root p ∧ Trail p search.components.length names ∧ path = follow p names) ∧
      ∀ names bytes t, d.seen (root.destination d.start ++ names) = some (.file bytes t) →
        (found.run d).countP (isFileAt d (root.destination d.start ++ names)) =
          if isIdle root search then 0 else ways search.components names := by
  -- An empty pattern leaves a slash at the end of the path, which asks for directories only, so
  -- that nothing it finds is a source.
  by_cases hne : pattern.toList = []
  · obtain rfl : pattern = "" := String.toList_eq_nil_iff.mp hne
    obtain rfl := Except.ok.inj (hpattern.reads.symm.trans ofText_empty)
    obtain ⟨found, hread, honly⟩ := hroot.search_empty
    refine ⟨found, hread, fun path hpath hfile => ?_, fun names bytes t hfile => ?_⟩
    · rw [isFile_of_directoriesOnly honly hpath] at hfile
      exact absurd hfile (by simp)
    · rw [countP_of_directoriesOnly honly, ways_cons]
      cases names <;> split <;> rfl
  · obtain ⟨texts, p, hread, hleads, hp, hexpand⟩ :=
      hroot.search hne hpattern.relative hpattern.reads
    refine ⟨_, hread, fun path hpath hfile => ?_, fun names bytes t hfile => ?_⟩
    · have hmem := List.mem_of_mem_filter hpath
      rcases expand_literal d texts search.components (scopeOf root) with hnil | hone
      · rw [hnil] at hmem
        exact absurd hmem List.not_mem_nil
      · rw [hone, ← hp] at hmem
        obtain ⟨names, htrail, hpath⟩ := exists_trail hproper hpattern.inner hleads.shown hmem
        exact ⟨p, names, hleads, htrail, hpath⟩
    · have hspace := hroom names bytes t hfile
      obtain ⟨hsame, hfind, hlength⟩ := hexpand (by omega)
      cases honly : search.directoriesOnly with
      | true =>
        rw [isIdle, honly, Bool.true_or, if_pos rfl]
        exact countP_of_directoriesOnly rfl _
      | false =>
        rw [Search.run, List.filter_eq_self.mpr fun _ _ => by simp, hsame, isIdle, honly,
          Bool.false_or]
        -- At the start itself the rest must not open with an empty component: such a search asks
        -- for the root, and finds none.
        by_cases hidle : p = ⟨"."⟩ ∧ opensEmpty search.components = true
        · obtain ⟨rfl, hopens⟩ := hidle
          have hstart : isStart root = true := hleads.isStart_iff.mpr rfl
          rw [expand_opensEmpty hopens, hstart, hopens, Bool.and_self, if_pos rfl]
          rfl
        · have hopens : p = ⟨"."⟩ →
            (search.components.dropWhile (· == literal ['.'])).head? ≠ some [] :=
            fun hp hhead => hidle ⟨hp, by rw [opensEmpty, hhead]; rfl⟩
          have hahead : Ahead d search.components p (root.destination d.start) names :=
            ⟨hleads.shown, hopens, hfind, ⟨bytes, t, hfile⟩, by omega⟩
          rw [if_neg fun hand =>
            hidle ((Bool.and_eq_true_iff.mp hand).imp_left hleads.isStart_iff.mp)]
          exact counted hproper search.components hpattern.inner hahead

/-! ## Sources -/

/-- A source for a path that was found: it is described as the file at the path, by an identity that
stays below the root. -/
structure StandsFor (d : Disk) (root path : Path) (s : Source) : Prop where
  described : Vault.describe root d ((path.stripLeading? root).getD path) = .ok s
  again : Vault.describe root d ⟨s.identity⟩ = .ok s
  inside : ¬ Vault.LeadsOut s.identity
  place : path.destination d.start = root.destination d.start ++ Vault.segments s.identity
  file :
    ∃ bytes t, d.seen (root.destination d.start ++ Vault.segments s.identity) = some (.file bytes t)

theorem exists_standsFor {search : Search} (hroot : LiteralRoot d root) (hproper : d.IsProper)
    (hroom : HasRoom d root search.components) {path : Path} (hleads : Leads root p)
    (htrail : Trail p search.components.length names) (hpath : path = follow p names)
    (hfile : d.isFile path = true) : ∃ s, StandsFor d root path s := by
  subst hpath
  have hplace : (follow p names).destination d.start =
    root.destination d.start ++ meaning names := by
    rw [htrail.destination hleads.shown, hleads.destination]
  obtain ⟨bytes, t, hlook⟩ := look_of_isFile hfile
  have hseen := item?_file_iff.mp (look_ok hlook).2
  rw [hplace] at hseen
  have hspace := hroom _ bytes t hseen
  obtain ⟨s, hdescribed, hagain, hinside, hsegments⟩ :=
    describe_found hproper hroot.directory hleads htrail hfile (by omega)
  exact ⟨s, hdescribed, hagain, hinside, by rw [hplace, hsegments], bytes, t,
    by rw [hsegments]; exact hseen⟩

/-- How often a file below the root is among the sources. -/
def listed (sources : List Source) (names : List String) : Nat :=
  sources.countP fun s => decide (Vault.segments s.identity = names)

/-- **The sources of a relative pattern** are files below the root, each as often as the pattern
stands for the names on the way to it. -/
theorem exists_sources {search : Search} (hroot : LiteralRoot d root) (hproper : d.IsProper)
    (hpattern : InnerPattern pattern search) (hroom : HasRoom d root search.components) :
    ∃ sources, allSources root d [pattern] = .ok sources ∧
      (∀ s ∈ sources, ∃ path, StandsFor d root path s) ∧
      ∀ names bytes t, d.seen (root.destination d.start ++ names) = some (.file bytes t) →
        listed sources names = if isIdle root search then 0 else ways search.components names := by
  obtain ⟨found, hread, htrails, hcount⟩ := exists_search hroot hproper hpattern hroom
  have hstands : ∀ path ∈ (found.run d).filter d.isFile, ∃ s, StandsFor d root path s := by
    intro path hpath
    obtain ⟨hrun, hfile⟩ := List.mem_filter.mp hpath
    obtain ⟨p, names, hleads, htrail, hfollow⟩ := htrails path hrun hfile
    exact exists_standsFor hroot hproper hroom hleads htrail hfollow hfile
  obtain ⟨sources, hall⟩ := Directive.exists_forall₂_iff.mpr hstands
  have hmapped : ((found.run d).filter d.isFile).mapM
      (fun path =>
        (Vault.describe root d ((path.stripLeading? root).getD path)).mapError Fault.message) =
          .ok sources :=
    Directive.mapM_eq_ok_iff.mpr (hall.imp fun path s h => by rw [h.described]; rfl)
  have hlocal : localSources root d pattern = .ok sources := by
    simp only [localSources, hread, Except.mapError, bind, Except.bind]
    exact hmapped
  have hsources : allSources root d [pattern] = .ok sources := by
    simp only [allSources, List.mapM_cons, List.mapM_nil, sourcesOf, hpattern.isLocal,
      Bool.false_eq_true, if_false, hlocal]
    simp [bind, Except.bind, pure, Except.pure, Except.map]
  refine ⟨sources, hsources, fun s hs => ?_, fun names bytes t hfile => ?_⟩
  · obtain ⟨path, -, h⟩ := exists_of_mem_forall₂ hall hs
    exact ⟨path, h⟩
  · -- A source is listed for the file that its path leads to, so counting sources is counting
    -- paths.
    have hlisted : ((found.run d).filter d.isFile).countP
        (fun path => decide (path.destination d.start = root.destination d.start ++ names)) =
          listed sources names :=
      countP_forall₂ hall fun path s h => by simp only [h.place, List.append_cancel_left_eq]
    rw [← hlisted, List.countP_filter, ← hcount names bytes t hfile]
    exact congrArg (List.countP · _) (funext fun path => Bool.and_comm _ _)

/-- **A relative pattern leads to just those files below the root that it stands for.** Each source
is described by its identity, which stays below the root, as the file there. A file is listed once
for each way in which the pattern stands for the names on the way to it from the root, and so if and
only if it does, and not twice if the pattern has one run of two stars at most. Only a pattern that
ends in a slash, or leads nowhere from where searches start, leads to no file. -/
theorem allSources_exact {search : Search} (hroot : LiteralRoot d root) (hproper : d.IsProper)
    (hpattern : InnerPattern pattern search) (hroom : HasRoom d root search.components) :
    ∃ sources, allSources root d [pattern] = .ok sources ∧
      (∀ s ∈ sources, Vault.describe root d ⟨s.identity⟩ = .ok s ∧ ¬ Vault.LeadsOut s.identity ∧
        ∃ bytes t, d.seen (root.destination d.start ++ Vault.segments s.identity) =
          some (.file bytes t)) ∧
      ∀ names bytes t, d.seen (root.destination d.start ++ names) = some (.file bytes t) →
        listed sources names = (if isIdle root search then 0 else ways search.components names) ∧
          (0 < listed sources names ↔
            isIdle root search = false ∧ Matches search.components names) ∧
          (starRuns search.components ≤ 1 → listed sources names ≤ 1) := by
  obtain ⟨sources, hsources, hstands, hcount⟩ := exists_sources hroot hproper hpattern hroom
  refine ⟨sources, hsources, fun s hs => ?_, fun names bytes t hfile => ?_⟩
  · obtain ⟨path, h⟩ := hstands s hs
    exact ⟨h.again, h.inside, h.file⟩
  · have hlisted := hcount names bytes t hfile
    refine ⟨hlisted, ?_, fun hruns => ?_⟩
    · rw [hlisted]
      cases isIdle root search with
      | true => simp
      | false => simpa using ways_pos_iff
    · rw [hlisted]
      split
      · exact Nat.zero_le 1
      · exact ways_le_one hruns names

/-- A vault with a picture in it and another one in a directory of it, and a picture beside the
vault. -/
def shelf : Disk :=
  ⟨((((Keyed.empty.insert ["v"] (.directory ⟨0⟩)).insert ["v", "img"] (.directory ⟨0⟩)).insert ["v",
    "img", "a.png"]
    (.file [] ⟨0⟩)).insert ["v", "b.png"] (.file [] ⟨0⟩)).insert ["c.png"] (.file [] ⟨0⟩), []⟩

/-- Whatever file a disk shows has room if the locations of all its items do. -/
theorem hasRoom_of_keys {components : List Pattern} (hne : root.destination d.start ≠ [])
    (h : ∀ l ∈ d.items.keys, byteLength root.text.toList + 2 * (components.length + 1) + span l <
      pathLimit) : HasRoom d root components := by
  intro names bytes t hfile
  have hplace :=
    h _ (mem_keys_of_seen (List.append_ne_nil_of_left_ne_nil hne names) (by rw [hfile]; rfl))
  rw [span_append] at hplace
  omega

theorem allSources_exact_shelf :
    ∃ sources, allSources ⟨"v"⟩ shelf ["**/*.png"] = .ok sources ∧ listed sources ["b.png"] = 1 ∧
      listed sources ["img", "a.png"] = 1 ∧ ∀ s ∈ sources, ¬ Vault.LeadsOut s.identity := by
  have hroot : LiteralRoot shelf ⟨"v"⟩ :=
    ⟨by decide +kernel, List.all_eq_true.mp (by decide), .inr (by decide)⟩
  have hproper : shelf.IsProper := .of_keys (by decide +kernel)
  have hreads : Search.ofText "**/*.png" =
      .ok ⟨⟨"."⟩, [[.anyPath], [.anyRun, .char '.', .char 'p', .char 'n', .char 'g']], false⟩ := by
        decide +kernel
  have hpattern : InnerPattern "**/*.png" _ :=
    ⟨by decide +kernel, by decide, hreads, by decide +kernel⟩
  obtain ⟨sources, hsources, hinside, hlisted⟩ :=
    allSources_exact hroot hproper hpattern
      (hasRoom_of_keys (by decide +kernel) (by decide +kernel))
  obtain ⟨hb, -⟩ := hlisted ["b.png"] [] ⟨0⟩ (by decide +kernel)
  obtain ⟨ha, -⟩ := hlisted ["img", "a.png"] [] ⟨0⟩ (by decide +kernel)
  exact ⟨sources, hsources, hb.trans (by decide +kernel), ha.trans (by decide +kernel),
    fun s hs => (hinside s hs).2.1⟩

/-- A vault with a picture in a directory in a directory of the same name, and a picture beside the
vault. -/
def nested : Disk :=
  ⟨((((Keyed.empty.insert ["v"] (.directory ⟨0⟩)).insert ["v", "a"] (.directory ⟨0⟩)).insert ["v",
    "a", "a"] (.directory ⟨0⟩)).insert
    ["v", "a", "a", "x.png"] (.file [] ⟨0⟩)).insert ["x.png"] (.file [] ⟨0⟩), []⟩

/-- A vault in a directory with brackets in its name, which a pattern takes for the set of the one
character between them. -/
def bracketed : Disk :=
  ⟨(Keyed.empty.insert ["[v]"] (.directory ⟨0⟩)).insert ["[v]", "a.png"] (.file [] ⟨0⟩), []⟩

/-- Behind a root with brackets a picture is not found; behind a root that begins with a dot and
goes on it is found, and then looked for in another place. With two stars twice a picture is listed
twice, and a pattern that begins with a dot and stands for two dots leads out of the root. -/
theorem allSources_not_exact :
    (bracketed.isDirectory ⟨"[v]"⟩ = true ∧ bracketed.isFile ⟨"[v]/a.png"⟩ = true ∧
        (allSources ⟨"[v]"⟩ bracketed ["a.png"]).map (·.map Source.identity) = .ok []) ∧
      (nested.isDirectory ⟨"./v"⟩ = true ∧ nested.isFile ⟨"./v/a/a/x.png"⟩ = true ∧
        (allSources ⟨"./v"⟩ nested ["a/a/x.png"]).map (·.map Source.identity) =
          .error "No such file or directory (os error 2)") ∧
      (∃ sources, allSources ⟨"v"⟩ nested ["**/a/**/x.png"] = .ok sources ∧
        listed sources ["a", "a", "x.png"] = 2) ∧
      (allSources ⟨"v"⟩ nested [".*/x.png"]).map (·.map Source.identity) = .ok ["../x.png"] := by
  refine ⟨by decide +kernel, by decide +kernel, ?_, by decide +kernel⟩
  have hroot : LiteralRoot nested ⟨"v"⟩ :=
    ⟨by decide +kernel, List.all_eq_true.mp (by decide), .inr (by decide)⟩
  have hproper : nested.IsProper := .of_keys (by decide +kernel)
  have hreads : Search.ofText "**/a/**/x.png" =
      .ok ⟨⟨"."⟩, [[.anyPath], [.char 'a'], [.anyPath],
        [.char 'x', .char '.', .char 'p', .char 'n', .char 'g']], false⟩ := by
    decide +kernel
  have hpattern : InnerPattern "**/a/**/x.png" _ :=
    ⟨by decide +kernel, by decide, hreads, by decide +kernel⟩
  obtain ⟨sources, hsources, -, hcount⟩ :=
    exists_sources hroot hproper hpattern (hasRoom_of_keys (by decide +kernel) (by decide +kernel))
  exact ⟨sources, hsources,
    (hcount ["a", "a", "x.png"] [] ⟨0⟩ (by decide +kernel)).trans (by decide +kernel)⟩

end AltRender.Command

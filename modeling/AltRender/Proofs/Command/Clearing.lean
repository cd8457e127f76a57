import AltRender.Command.Run
import AltRender.Proofs.Cache.Clearing
import AltRender.Proofs.Glob.Following
import AltRender.Proofs.Render.Run
import AltRender.Proofs.Render.Ways

/-!
# `Proofs/Command/Clearing` — a render undone by clearing its source

A run that renders names its sources by what a search finds, the vault's root taken off; a run that
clears names a source by the location it is given, as it is spelled. The two names agree if the
location has no empty segment and does not begin with a dot for a segment, and then the entry that
was made or found is removed (`clear_undoes_render`). A location that is spelled in another way is
rendered under the plain spelling but cleared under its own, and the entry stays
(`clear_misses_dotted`).

The search for a text without pattern characters finds one path or none, and that path is the
location behind the root as the root was spelled (`GivesBack`, `givesBack_of_literal`). When the
root is taken off, whole components go, and with them any doubled slash or dot at the place where
the two were joined.
-/

set_option autoImplicit false

namespace AltRender.Command

open AltRender.Disk AltRender.Text AltRender.Glob AltRender.Cache

variable {d : Disk} {root q : Path} {location : String}

/-! ## Spellings -/

/-- A location has no empty segment and does not begin with a dot for a segment. -/
structure PlainlySpelled (location : String) : Prop where
  noGap : [] ∉ cut '/' location.toList
  noDot : (cut '/' location.toList).head? ≠ some ['.']

/-- A path below the root as it is found for a location: the location behind a spelling of the root,
or on its own if the root is where searches start from. -/
inductive Found (root : Path) (location : String) : Path → Prop where
  | behind {p : Path} (hp : p.text.toList ≠ []) (hroot : p.components = root.components) :
      Found root location (p.join ⟨location⟩)
  | bare (hroot : root.components = [] ∨ isStart root = true) : Found root location ⟨location⟩

/-- A search for a location below the root gives back the path it found, if it found one. -/
def GivesBack (root : Path) (d : Disk) (location : String) : Prop :=
  ∀ search, Search.ofText (root.join ⟨location⟩).text = .ok search →
    search.run d = [] ∨ ∃ q, Found root location q ∧ search.run d = [q]

namespace PlainlySpelled

theorem exists_pieces (h : PlainlySpelled location) :
    ∃ first rest, (⟨location⟩ : Path).pieces = first :: rest ∧ Path.isRedundant first = false := by
  obtain ⟨first, rest, hp⟩ := (⟨location⟩ : Path).pieces_eq_cons
  have hcut : cut '/' location.toList = first :: rest := hp
  have hfirst : first ≠ [] := fun hnil => h.noGap (hcut ▸ hnil ▸ List.mem_cons_self)
  have hdot : first ≠ ['.'] := fun hdot => h.noDot (hcut ▸ hdot ▸ rfl)
  exact ⟨first, rest, hp, by simp [Path.isRedundant, hfirst, hdot]⟩

theorem isAbsolute (h : PlainlySpelled location) : (⟨location⟩ : Path).isAbsolute = false := by
  obtain ⟨first, rest, hp, hmeaning⟩ := h.exists_pieces
  rw [Bool.eq_false_iff]
  intro habs
  rw [Path.first_of_isAbsolute hp habs] at hmeaning
  exact absurd hmeaning (by decide)

theorem ne_nil (h : PlainlySpelled location) : location.toList ≠ [] :=
  fun hnil => h.noGap (by rw [hnil]; exact List.mem_singleton_self _)

end PlainlySpelled

/-- **The root is taken off what is found for a plainly spelled location,** and the location is
left. -/
theorem Found.stripLeading? (h : Found root location q) (hspelled : PlainlySpelled location)
    (hlast : (⟨location⟩ : Path).pieces.getLast? ≠ some ['.']) :
    (q.stripLeading? root).getD q = ⟨location⟩ := by
  obtain ⟨first, rest, hp, hfirst⟩ := hspelled.exists_pieces
  obtain ⟨last, hlast'⟩ : ∃ last, (first :: rest).getLast? = some last :=
    ⟨_, List.getLast?_eq_some_getLast (List.cons_ne_nil first rest)⟩
  have hmeaning : Path.isRedundant last = false := by
    have hne : last ≠ [] := fun hnil =>
      hspelled.noGap
        (show [] ∈ (⟨location⟩ : Path).pieces from hp ▸ hnil ▸ List.mem_of_getLast? hlast')
    have hdot : last ≠ ['.'] := fun hdot => hlast (hp ▸ hdot ▸ hlast')
    simp [Path.isRedundant, hne, hdot]
  cases h with
  | behind hne hroot =>
    rw [Path.stripLeading?_join hne hroot hspelled.isAbsolute, hp,
      List.dropWhile_cons_of_neg (by simp [hfirst]),
      Path.dropRedundantEnd_of_getLast? hlast' hmeaning, ← hp, Path.ofPieces_pieces]
    rfl
  | bare hroot =>
    rcases hroot with hempty | hstart
    · -- Nothing is taken off, and nothing at the end is without meaning.
      have hrest : Path.dropRedundantEnd rest = rest := by
        cases rest with
        | nil => rfl
        | cons second rest =>
          rw [List.getLast?_cons_cons] at hlast'
          exact Path.dropRedundantEnd_of_getLast? hlast' hmeaning
      rw [Path.stripLeading?, hempty]
      simp only [List.isPrefixOf, Bool.not_true, Bool.false_eq_true, if_false, hp, List.length_nil,
        hrest]
      rw [← hp, Path.ofPieces_pieces]
      rfl
    · -- What is found does not begin with the root, and is taken as it is.
      rw [stripLeading?_start hp hfirst hstart]
      rfl

/-- From where searches start, a plainly spelled location is followed to itself. -/
theorem PlainlySpelled.follow_start (h : PlainlySpelled location) :
    follow ⟨"."⟩ ((cut '/' location.toList).map String.ofList) = ⟨location⟩ := by
  obtain ⟨first, rest, hp, hmeaning⟩ := h.exists_pieces
  have hslash := noSlash_of_mem_pieces location
  rw [← joinNames_pieces h.noGap]
  rw [show cut '/' location.toList = first :: rest from hp, List.map_cons] at hslash ⊢
  obtain ⟨hname, hslash⟩ := List.forall_mem_cons.mp hslash
  exact Glob.follow_start (by decide) hname (by rwa [String.toList_ofList]) hslash

/-- **From where a root leads, a plainly spelled location is followed to a path that is found for
it.** -/
theorem found_follow {p : Path} (h : Leads root p) (hspelled : PlainlySpelled location) :
    Found root location (follow p ((cut '/' location.toList).map String.ofList)) := by
  have hslash := noSlash_of_mem_pieces location
  cases h with
  | along hfirm hcomponents =>
    rw [hfirm.follow hslash, joinNames_eq p hslash (by simp [cut_ne_nil]),
      joinNames_pieces hspelled.noGap]
    exact .behind hfirm.nonempty hcomponents
  | start hroot =>
    rw [hspelled.follow_start]
    exact .bare (.inr hroot)

/-- **Below a plain root a search for a text gives back the path that it found.** -/
theorem givesBack_of_literal (hroot : ∀ c ∈ root.text.toList, isLiteral c = true)
    (hdot : Rests root ∨ root.components.head? ≠ some .here)
    (hlocation : ∀ c ∈ location.toList, isLiteral c = true) (hspelled : PlainlySpelled location)
    (d : Disk) : GivesBack root d location := by
  intro search hsearch
  have hread := ofText_literal hlocation hspelled.noGap
  -- Whatever stands before them, all components stand for themselves.
  obtain ⟨texts, scope, hparts, hfound⟩ : ∃ (texts : List (List Char)) (scope : Path),
      Search.ofText (root.join ⟨location⟩).text = .ok ⟨scope, texts.map literal, false⟩ ∧
        Found root location (follow scope (texts.map String.ofList)) := by
    by_cases hempty : root.text.toList = []
    · obtain rfl : root = ⟨""⟩ := Path.eq_of_toList hempty
      rw [Path.join_empty_left hspelled.isAbsolute]
      exact ⟨_, _, hread, hspelled.follow_start.symm ▸ .bare (.inl rfl)⟩
    · have hrelative : location.toList.head? ≠ some '/' := by
        simpa [Path.isAbsolute] using hspelled.isAbsolute
      obtain ⟨first, front, hcomponents, habs, hsteps, htrunk, hjoined⟩ :=
        ofText_join hroot hempty hspelled.ne_nil hrelative hread
      have hleads := leads_follow (cut_ne_nil _ _) hcomponents habs hsteps htrunk hdot
      refine ⟨_, _, by rw [hjoined, ← List.map_append], ?_⟩
      rw [List.map_append, follow, List.foldl_append]
      exact found_follow hleads hspelled
  rw [hparts] at hsearch
  obtain rfl := Except.ok.inj hsearch
  have hrun : (⟨scope, texts.map literal, false⟩ : Search).run d =
    expand d (texts.map literal) scope := by
    simp [Search.run]
  have hexpand := expand_literal d texts [] scope
  rw [List.append_nil] at hexpand
  rw [hrun]
  exact hexpand.imp_right fun hone => ⟨_, hfound, hone⟩

/-! ## What a render leaves in the cache -/

/-- **What was rendered has its place among the entries,** and the names in the directory of the
cache stay plain. -/
theorem entry_of_render {fetch : Fetch} {studio after : Studio} {s : Source} {text : String}
    {theme : Option Theme} {now : Instant} {rendered : Rendered}
    (hregistry : studio.registry = Registry.builtin) (hplain : PlainHome studio.cache studio.disk)
    (hrender : studio.render fetch s text theme now = (.ok rendered, after)) :
    PlainHome studio.cache after.disk ∧
      ∀ p, rendered.path? = some p →
        p = studio.cache.entryPath s (Registry.builtin.chainOf text).signatures theme ∧
          (rendered = .created p → after.disk.isFile p = true) := by
  have hgoes := Studio.renderBy_goes .atOnce fetch studio s text theme now
  rw [Studio.renderBy_atOnce, hrender, hregistry] at hgoes
  -- A render answers with a path where it was served from the cache or written to it, and that path
  -- is the entry of the source.
  cases hgoes with
  | idle hempty => exact ⟨hplain, fun p hp => absurd hp (by simp [Rendered.path?])⟩
  | hit hchain hcurrent =>
    refine ⟨hplain,
      fun p hp => ⟨(Option.some.inj hp).symm, fun hcreated => absurd hcreated (by simp)⟩⟩
  | @written contents c d hchain hcurrent hmade hwrite =>
    have hwrite : studio.afterMiss.cache.write studio.disk
        (studio.cache.entryPath s (Registry.builtin.chainOf text).signatures theme) contents now =
          (.ok (), c, d) :=
      hwrite
    have hhome : PlainHome studio.afterMiss.cache studio.disk := hplain
    have hplain' :=
      (write_plain hhome (w := ⟨s, Registry.builtin.chainOf text, theme, contents, now⟩)
      (Chain.isBuiltin_chainOf text) hwrite)
    refine ⟨?_, fun p hp => ⟨(Option.some.inj hp).symm, fun _ => ?_⟩⟩
    · have hdirectory : c.absoluteDirectory = studio.cache.absoluteDirectory := hplain'.1
      have hkept := hplain'.2.2
      rw [PlainHome, home, hdirectory] at hkept
      exact hkept
    · obtain rfl := (Option.some.inj hp)
      obtain ⟨-, d₁, -, hinstall⟩ := write_done hwrite
      rw [isFile, look_of_install hinstall]
      rfl

/-- **A file in an entry's place is gone when the cache is cleared of the entry's source,** and
counted. -/
theorem clearSource_entry {c : Cache} (hdirectory : c.absoluteDirectory.text.toList ≠ [])
    (hplain : PlainHome c d) {s s' : Source} (hidentity : s'.identity = s.identity) {chain : Chain}
    (hchain : chain.IsBuiltin) {theme : Option Theme}
    (hfile : d.isFile (c.entryPath s chain.signatures theme) = true) (now : Instant) :
    Glob.exists? (c.clearSource d s' now).2.2 (c.entryPath s chain.signatures theme) = false ∧
      1 ≤ (c.clearSource d s' now).1 := by
  have hslash := noSlash_signatures hchain
  have hname := plainName_entryName s hslash theme
  have hplace := destination_entryPath c d.start s hslash theme
  obtain ⟨bytes, t, hlook⟩ := look_of_isFile hfile
  obtain ⟨hfind, hitem⟩ := look_ok hlook
  rw [hplace] at hfind hitem
  have hseen := item?_file_iff.mp hitem
  -- The identity alone makes the mark, so a source that is found in another way but named alike
  -- marks the same entries.
  have hmarked : marked s' (entryName s chain.signatures theme) = true := by
    have hsame : fingerprint s' = fingerprint s := by rw [fingerprint, fingerprint, hidentity]
    rw [marked, hsame]
    exact occursIn_fingerprint s chain.signatures theme
  have hthinned : Thinned (c.home d.start) d (c.clearSource d s' now).2.2 :=
    removeMatching_thinned rfl hplain (marked s') now
  have hcount : (c.clearSource d s' now).1 = (d.lost (c.clearSource d s' now).2.2).length :=
    removeMatching_count c.absoluteDirectory d (marked s') now
  have hgone : (c.clearSource d s' now).2.2.seen
    (c.home d.start ++ [entryName s chain.signatures theme]) = none := by
    rcases hthinned.seen (c.home d.start ++ [entryName s chain.signatures theme]) with
      hsame | ⟨hnone, -⟩
    · exact absurd (hsame.trans hseen)
        (removeMatching_removes hdirectory rfl hplain hname hmarked fun _ => hfind)
    · exact hnone
  refine ⟨?_, ?_⟩
  · unfold Glob.exists?
    split
    · rename_i item hlook'
      obtain ⟨-, hthere⟩ := look_ok hlook'
      rw [hthinned.start, hplace] at hthere
      have hsome := isSome_item? (c.clearSource d s' now).2.2
        (c.home d.start ++ [entryName s chain.signatures theme])
      rw [hthere, hgone] at hsome
      exact absurd hsome (by simp)
    · rfl
  · rw [hcount]
    exact List.length_pos_of_mem (mem_lost.mpr ⟨⟨bytes, t, hseen⟩, hgone⟩)

/-! ## Runs -/

theorem Found.getLast? (h : Found root location q) (hspelled : PlainlySpelled location) :
    q.pieces.getLast? = (⟨location⟩ : Path).pieces.getLast? := by
  cases h with
  | behind => exact Path.getLast?_pieces_join _ hspelled.isAbsolute
  | bare => rfl

/-- **The source that a render finds for a plainly spelled location has the location for its
identity.** -/
theorem localSources_cases (hgives : GivesBack root d location)
    (hspelled : PlainlySpelled location) :
    (∃ reason, localSources root d location = .error reason) ∨
    localSources root d location = .ok [] ∨
      ∃ s, s.identity = location ∧ localSources root d location = .ok [s] := by
  cases hsearch : Search.ofText (root.join ⟨location⟩).text with
  | error fault =>
    exact .inl ⟨"bad pattern '" ++ location ++ "': " ++ fault.message, by
      simp only [localSources, hsearch, Except.mapError, bind, Except.bind]⟩
  | ok search =>
    have hsources : localSources root d location = ((search.run d).filter d.isFile).mapM fun p =>
        (Vault.describe root d ((p.stripLeading? root).getD p)).mapError Fault.message := by
      simp only [localSources, hsearch, Except.mapError, bind, Except.bind]
    -- The search finds the one path or nothing, so a source is described once at most, and under
    -- the location that was asked for.
    rcases hgives search hsearch with hnone | ⟨q, hfound, hone⟩
    · exact .inr (.inl (by rw [hsources, hnone]; rfl))
    · cases hfile : d.isFile q with
      | false =>
        exact .inr (.inl (by rw [hsources, hone, List.filter_cons_of_neg (by simp [hfile])]; rfl))
      | true =>
        have hlast := hfound.getLast? hspelled ▸ getLast?_of_isFile hfile
        rw [hone, List.filter_cons_of_pos hfile, List.filter_nil, List.mapM_cons,
          hfound.stripLeading? hspelled hlast]
          at hsources
        cases hdescribe : Vault.describe root d ⟨location⟩ with
        | error fault =>
          exact .inl ⟨fault.message, by rw [hsources, hdescribe]; rfl⟩
        | ok s =>
          obtain ⟨item, -, rfl⟩ := describe_ok hdescribe
          exact .inr
            (.inr ⟨Source.atPath ⟨location⟩ item.changed, rfl, by rw [hsources, hdescribe]; rfl⟩)

variable {codec : Codec} {now : Instant} {arguments : List String} {r : Request} {s : Settings}
  {alt : String} {theme : Option Theme}

theorem runRender_of_source {patterns : List String} {source : Source}
    (hsources : allSources s.vaultRoot d patterns = .ok [source])
    (hexit : (runRender codec s d now patterns alt theme).outcome.exitCode = 0) :
    ∃ rendered after, (studioOf codec s d).render (localFetch s.vaultRoot) source alt theme now =
      (.ok rendered, after) ∧
      (runRender codec s d now patterns alt theme).outcome =
        ⟨0, renderedLine source rendered, "", after.disk⟩ := by
  obtain ⟨result, after, hrender⟩ :
      ∃ result after, (studioOf codec s d).render (localFetch s.vaultRoot) source alt theme now =
        (result, after) := ⟨_, _, rfl⟩
  cases result with
  | error fault =>
    simp only [runRender, hsources, List.foldl_cons, List.foldl_nil, Batch.add, hrender] at hexit
    exact absurd hexit (by simp [Report.outcome])
  | ok rendered =>
    refine ⟨rendered, after, hrender, ?_⟩
    simp only [runRender, hsources, List.foldl_cons, List.foldl_nil, Batch.add, hrender, if_true,
      Report.outcome, String.empty_append]

/-- **What a run comes to that renders one plainly spelled location,** if it succeeds. -/
theorem run_render_ok (hread : read arguments = .ok (.request r))
    (htask : r.task = .render [location] alt theme) (hs : effectiveSettings d r = .ok s)
    (hlocal : Source.isRemoteLocation location = false) (hgives : GivesBack s.vaultRoot d location)
    (hspelled : PlainlySpelled location) (hexit : (run codec d now arguments).exitCode = 0) :
    ∃ source rendered after, localSources s.vaultRoot d location = .ok [source] ∧
      source.identity = location ∧
      (studioOf codec s d).render (localFetch s.vaultRoot) source alt theme now =
        (.ok rendered, after) ∧
      run codec d now arguments = ⟨0, renderedLine source rendered, "", after.disk⟩ := by
  have hrun : run codec d now arguments =
    (runRender codec s d now [location] alt theme).outcome := by
    simp only [run, hread, hs, runTask, htask]
  have hall : allSources s.vaultRoot d [location] = localSources s.vaultRoot d location := by
    simp only [allSources, List.mapM_cons, List.mapM_nil, sourcesOf, hlocal, Bool.false_eq_true,
      if_false]
    cases localSources s.vaultRoot d location with
    | error reason => rfl
    | ok sources => simp [bind, Except.bind, pure, Except.pure, Except.map]
  rw [hrun] at hexit ⊢
  -- Without a source there is nothing to render, and the exit code says so.
  rcases localSources_cases hgives hspelled with
    ⟨reason, herror⟩ | hnone | ⟨source, hidentity, hone⟩
  · rw [runRender, hall, herror] at hexit
    exact absurd hexit (by simp [Report.failed, Report.outcome])
  · rw [runRender, hall, hnone] at hexit
    exact absurd hexit (by simp [Report.failed, Report.outcome])
  · obtain ⟨rendered, after, hrender, hout⟩ := runRender_of_source (hall.trans hone) hexit
    exact ⟨source, rendered, after, hone, hidentity, hrender, hout⟩

/-- What a run comes to that clears a local source. -/
theorem run_clear (hread : read arguments = .ok (.request r))
    (htask : r.task = .clear (some location)) (hs : effectiveSettings d r = .ok s)
    (hlocal : Source.isRemoteLocation location = false) :
    run codec d now arguments =
      ⟨0, s!"Removed {((Cache.ofDirectory s.vaultRoot s.cacheDirectory).clearSource d
        ⟨location, location, location, 0⟩ now).1} cache entries\n", "",
        ((Cache.ofDirectory s.vaultRoot s.cacheDirectory).clearSource d ⟨location, location,
          location, 0⟩ now).2.2⟩ := by
  simp only [run, hread, hs, runTask, htask, runClear, hlocal, Bool.false_eq_true, if_false]
  rfl

/-- **Clearing a plainly spelled source undoes its render.** After a run that rendered a local
source and succeeded, a run with the same vault and cache directory that clears the source by the
same text removes the entry that the first one made or found: where it left a file there is nothing
afterwards, and the file is counted. What was made is such a file. -/
theorem clear_undoes_render {r' : Request} {s' : Settings} {now' : Instant}
    {arguments' : List String} (hread : read arguments = .ok (.request r))
    (htask : r.task = .render [location] alt theme) (hs : effectiveSettings d r = .ok s)
    (hlocal : Source.isRemoteLocation location = false) (hgives : GivesBack s.vaultRoot d location)
    (hspelled : PlainlySpelled location)
    (hdirectory : (Cache.ofDirectory s.vaultRoot s.cacheDirectory).absoluteDirectory.text ≠ "")
    (hplain : PlainHome (Cache.ofDirectory s.vaultRoot s.cacheDirectory) d)
    (hexit : (run codec d now arguments).exitCode = 0)
    (hread' : read arguments' = .ok (.request r')) (htask' : r'.task = .clear (some location))
    (hs' : effectiveSettings (run codec d now arguments).disk r' = .ok s')
    (hvault : s'.vaultRoot = s.vaultRoot) (hcache : s'.cacheDirectory = s.cacheDirectory) :
    ∃ source rendered n, localSources s.vaultRoot d location = .ok [source] ∧
      source.identity = location ∧
      ((studioOf codec s d).render (localFetch s.vaultRoot) source alt theme now).1 = .ok rendered ∧
      (run codec d now arguments).out = renderedLine source rendered ∧
      (run codec (run codec d now arguments).disk now' arguments').exitCode = 0 ∧
      (run codec (run codec d now arguments).disk now' arguments').out =
        s!"Removed {n} cache entries\n" ∧
      ∀ p, rendered.path? = some p →
        (rendered = .created p → (run codec d now arguments).disk.isFile p = true) ∧
        ((run codec d now arguments).disk.isFile p = true →
          Glob.exists? (run codec (run codec d now arguments).disk now' arguments').disk p = false ∧
          1 ≤ n) := by
  obtain ⟨source, rendered, after, hsources, hidentity, hrender, hout⟩ :=
    run_render_ok hread htask hs hlocal hgives hspelled hexit
  rw [hout] at hs' ⊢
  rw [run_clear hread' htask' hs' hlocal, hvault, hcache]
  have hregistry : (studioOf codec s d).registry = Registry.builtin := by rw [studioOf]
  -- The names in the cache are still plain after the render, as the clear needs them to be.
  obtain ⟨hplain', hentry⟩ := entry_of_render hregistry hplain hrender
  refine ⟨source, rendered, _, hsources, hidentity, by rw [hrender], rfl, rfl, rfl, fun p hp => ?_⟩
  obtain ⟨rfl, hcreated⟩ := hentry p hp
  refine ⟨hcreated, fun hfile => ?_⟩
  have hne : (Cache.ofDirectory s.vaultRoot s.cacheDirectory).absoluteDirectory.text.toList ≠ [] :=
    fun hnil => hdirectory (String.toList_inj.mp hnil)
  exact clearSource_entry hne hplain' hidentity.symm (Chain.isBuiltin_chainOf alt) hfile now'

/-- A vault with one picture in a directory. -/
def oneBelow : Disk :=
  ⟨(Keyed.empty.insert ["img"] (.directory ⟨0⟩)).insert ["img", "a.png"]
    (.file (Studio.onePixel ⟨10, 20, 30⟩).toContainer ⟨0⟩), []⟩

/-- Where a render of the picture puts its entry. -/
def entryBelow : Path :=
  ⟨"./.obsidian/.dark-image-cache/a_5f01c606ff3b_invert.png"⟩

/-- The render of a location in this vault, and then clearing the location. -/
def renderBelow (location : String) : Outcome :=
  run .container oneBelow ⟨1000000⟩ ["render", location, "--alt", "@invert"]

def clearBelow (location : String) : Outcome :=
  run .container (renderBelow location).disk ⟨2000000⟩ ["clear", "--file", location]

theorem clear_undoes_render_below :
    (renderBelow "img/a.png").disk.isFile entryBelow = true ∧
      Glob.exists? (clearBelow "img/a.png").disk entryBelow = false := by
  have hspelled : PlainlySpelled "img/a.png" := ⟨by decide, by decide⟩
  have hplain : PlainHome (Cache.ofDirectory ⟨"."⟩ Settings.usual.cacheDirectory) oneBelow := by
    intro name hsome
    have hhome : (Cache.ofDirectory ⟨"."⟩ Settings.usual.cacheDirectory).home oneBelow.start =
        [".obsidian", ".dark-image-cache"] := by decide +kernel
    rw [hhome] at hsome
    exact absurd hsome (by simp [seen, item?, oneBelow, Keyed.get?_insert, Keyed.get?_empty])
  have hexit : (renderBelow "img/a.png").exitCode = 0 := by decide +kernel
  obtain ⟨source, rendered, n, hsources, -, hrendered, -, -, -, hentry⟩ :=
    @clear_undoes_render oneBelow "img/a.png" .container ⟨1000000⟩ ["render", "img/a.png", "--alt",
      "@invert"]
      ⟨none, none, none, false, .render ["img/a.png"] "@invert" none⟩ Settings.usual "@invert" none
      ⟨none, none, none, false, .clear (some "img/a.png")⟩ Settings.usual ⟨2000000⟩ ["clear",
        "--file", "img/a.png"]
      rfl rfl rfl (by decide)
        (givesBack_of_literal (List.all_eq_true.mp (by decide)) (.inl rests_start)
        (List.all_eq_true.mp (by decide)) hspelled oneBelow) hspelled
      (by decide) hplain hexit rfl rfl rfl rfl rfl
  have hsource : localSources ⟨"."⟩ oneBelow "img/a.png" =
    .ok [Source.atPath ⟨"img/a.png"⟩ ⟨0⟩] := by decide +kernel
  obtain rfl := List.singleton_inj.mp (Except.ok.inj (hsources.symm.trans hsource))
  have hcreated :
    ((studioOf .container Settings.usual oneBelow).render (localFetch ⟨"."⟩)
      (Source.atPath ⟨"img/a.png"⟩ ⟨0⟩)
      "@invert" none ⟨1000000⟩).1 = .ok (.created entryBelow) := by decide +kernel
  obtain rfl := Except.ok.inj (hrendered.symm.trans hcreated)
  obtain ⟨hfile, hgone⟩ := hentry entryBelow rfl
  exact ⟨hfile rfl, (hgone (hfile rfl)).1⟩

/-- With a dot in front the picture is rendered as well, into the same entry, but clearing it by
that text removes nothing. -/
theorem clear_misses_dotted :
    (renderBelow "./img/a.png").exitCode = 0 ∧
      (renderBelow "./img/a.png").out = "img/a.png -> " ++ entryBelow.text ++ "\n" ∧
      (clearBelow "./img/a.png").exitCode = 0 ∧
      (clearBelow "./img/a.png").out = "Removed 0 cache entries\n" ∧
      (clearBelow "./img/a.png").disk.isFile entryBelow = true := by
  decide +kernel

end AltRender.Command

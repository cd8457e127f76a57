import AltRender.Proofs.Cache.Eviction
import AltRender.Proofs.Cache.Freshness
import AltRender.Proofs.Disk.Lost

/-!
# `Proofs/Cache/Clearing` — what is left of a cache that is cleared

Clearing looks at the names in the directory of a cache one after the other, and takes away what is
a file and has a name to be taken. Whatever came into the directory before, no such file is left if
the disk lets the directory be listed and its files be removed (`Permits`), nothing else changes,
and as many are counted as are gone (`Cleared`). All entries of a source have names to be taken with
the source, so no check finds one afterwards (`clear_complete`).

That the count is right needs no permission: what could not be removed is not counted
(`removeMatching_count`).
-/

set_option autoImplicit false

namespace AltRender

open AltRender.Disk AltRender.Text

namespace Cache

/-! ## Counting -/

section Counts

variable {d : Disk} {directory : Path} {test : String → Bool} {now : Instant}

/-- **As many files were counted so far as are lost,** and nothing has come. -/
structure Counts (d : Disk) (sofar : Nat × Disk) : Prop where
  kept : ∀ l item, sofar.2.seen l = some item → d.seen l = some item
  count : sofar.1 = (d.lost sofar.2).length

theorem Counts.refl (d : Disk) : Counts d (0, d) :=
  ⟨fun _ _ hl => hl, by rw [lost_self]; rfl⟩

theorem Counts.removeFile {sofar : Nat × Disk} (h : Counts d sofar) (p : Path) (now : Instant) :
    Counts d (sofar.1 + (removeFile sofar.2 p now).1, (removeFile sofar.2 p now).2) := by
  unfold Cache.removeFile
  cases hremove : sofar.2.remove p now with
  | error fault => exact h
  | ok d' =>
    obtain ⟨haltered, bytes, t, hfile⟩ := remove_ok hremove
    have hbefore := h.kept _ _ hfile
    have hlost := length_lost_of_altered ⟨bytes, t, hbefore⟩ (by rw [hfile]; simp) haltered
    refine ⟨fun l item hl => ?_, (congrArg (· + 1) h.count).trans hlost.symm⟩
    by_cases hplace : l = p.destination sofar.2.start
    · rw [hplace, haltered.seen_self] at hl
      exact absurd hl (by simp)
    · exact h.kept l item (haltered.seen_of_ne hplace ▸ hl)

theorem Counts.removeNext {sofar : Nat × Disk} (h : Counts d sofar) (name : String) :
    Counts d (removeNext directory test now sofar name) := by
  unfold Cache.removeNext
  split
  · exact h.removeFile _ now
  · exact h

theorem Counts.foldl {names : List String} {sofar : Nat × Disk} (h : Counts d sofar) :
    Counts d (names.foldl (Cache.removeNext directory test now) sofar) := by
  induction names generalizing sofar with
  | nil => exact h
  | cons name rest ih => exact ih (h.removeNext name)

/-- **As many files are counted as are gone.** -/
theorem removeMatching_count (directory : Path) (d : Disk) (test : String → Bool) (now : Instant) :
    (removeMatching directory d test now).1 =
      (d.lost (removeMatching directory d test now).2).length := by
  cases hnames : d.names directory with
  | error fault =>
    rw [removeMatching, hnames]
    exact (Counts.refl d).count
  | ok names =>
    rw [removeMatching_of_names hnames]
    exact (Counts.refl d).foldl.count

/-- A single file is counted if it is gone. -/
theorem removeFile_count (d : Disk) (p : Path) (now : Instant) :
    (removeFile d p now).1 = (d.lost (removeFile d p now).2).length := by
  have hcounts := (Counts.refl d).removeFile p now
  rw [Nat.zero_add] at hcounts
  exact hcounts.count

end Counts

/-! ## Clearing -/

/-- **The disk lets the directory of a cache be listed,** if anything is in it, **and its files be
removed.** -/
structure Permits (c : Cache) (d : Disk) (now : Instant) : Prop where
  listed : ∀ name, (d.seen (c.home d.start ++ [name])).isSome = true →
    ∃ names, d.names c.absoluteDirectory = .ok names
  removed : ∀ name bytes t, d.seen (c.home d.start ++ [name]) = some (.file bytes t) →
    ∃ d', d.remove (c.absoluteDirectory.join ⟨name⟩) now = .ok d'

/-- **A cache is cleared of the files whose names satisfy a test:** none of them is left in its
directory, all else is as it was, be it in the directory, below it or outside of it, and the files
that are gone are counted. -/
structure Cleared (c : Cache) (d : Disk) (test : String → Bool) (result : Nat × Cache × Disk) :
    Prop where
  gone : ∀ name bytes t, test name = true →
    result.2.2.seen (c.home d.start ++ [name]) ≠ some (.file bytes t)
  kept : ∀ l, (∀ name bytes t, test name = true → l = c.home d.start ++ [name] →
    d.seen l ≠ some (.file bytes t)) →
    result.2.2.seen l = d.seen l
  count : result.1 = (d.lost result.2.2).length
  tally : result.2.1 = { c with tally :=
    { c.tally with evictions := c.tally.evictions + result.1 } }

section Clears

variable {c : Cache} {d : Disk} {now : Instant}

/-- A disk permits a cache to be cleared if the directory is listed and all that is listed can be
looked at. -/
theorem permits_of_look (hplain : PlainHome c d) {names : List String}
    (hnames : d.names c.absoluteDirectory = .ok names)
    (hlook : ∀ name ∈ names, ∃ item, d.look (c.absoluteDirectory.join ⟨name⟩) = .ok item)
    (now : Instant) : Permits c d now := by
  refine ⟨fun _ _ => ⟨names, hnames⟩, fun name bytes t hfile => ?_⟩
  have hsome := Option.isSome_of_eq_some hfile
  have hname := hplain name hsome
  obtain ⟨item, hitem⟩ := hlook name (mem_of_names hnames hsome)
  have hfind := (look_ok hitem).1
  rw [Path.destination_join _ _ hname] at hfind
  exact remove_of_find_join hname hfind hfile now

/-- **Removing the files of the directory that satisfy a test clears the cache of them.** -/
theorem cleared_of_removeMatching (hplain : PlainHome c d) (hpermits : Permits c d now)
    (test : String → Bool) {n : Nat} {d' : Disk}
    (hremove : removeMatching c.absoluteDirectory d test now = (n, d')) :
    Cleared c d test (n, { c with tally := c.tally.addEvictions n }, d') := by
  have hthinned := removeMatching_thinned rfl hplain test now
  have hcount := removeMatching_count c.absoluteDirectory d test now
  rw [hremove] at hthinned hcount
  refine ⟨fun name bytes t htest hfile => ?_, fun l hl => ?_, hcount, rfl⟩
  · -- A file that is left was there before, and was to be found and removed.
    have hbefore := hthinned.seen_of_some hfile
    have hsome := Option.isSome_of_eq_some hbefore
    have hname := hplain name hsome
    obtain ⟨names, hnames⟩ := hpermits.listed name hsome
    obtain ⟨d₁, hd₁⟩ := hpermits.removed name bytes t hbefore
    have hfind := find_of_remove hd₁
    rw [Path.destination_join _ _ hname] at hfind
    have hgone :=
      @removeMatching_removes c.absoluteDirectory (c.home d.start) test now name bytes t d
      (ne_nil_of_names hnames) rfl hplain hname htest fun _ => hfind
    rw [hremove] at hgone
    exact hgone hfile
  · rcases hthinned.seen l with hsame | ⟨-, ⟨bytes, t, hfile⟩, name, rfl⟩
    · exact hsame
    · cases htest : test name with
      | true => exact absurd hfile (hl name bytes t htest rfl)
      | false =>
        have hspared := @removeMatching_spares c.absoluteDirectory
          (c.home d.start) test now name d rfl hplain htest
        rw [hremove] at hspared
        exact hspared

/-- Whether a file of the directory is taken for one of a source's entries. -/
def marked (s : Source) (name : String) : Bool :=
  occursIn (fingerprint s).toList name.toList

theorem cleared_clearSource (hplain : PlainHome c d) (hpermits : Permits c d now) (s : Source) :
    Cleared c d (marked s) (c.clearSource d s now) :=
  cleared_of_removeMatching hplain hpermits (marked s) rfl

theorem cleared_clearAll (hplain : PlainHome c d) (hpermits : Permits c d now) :
    Cleared c d (fun _ => true) (c.clearAll d now) :=
  cleared_of_removeMatching hplain hpermits _ rfl

/-- **No entry of a source is left when the cache is cleared of the files marked for it,** whatever
it was made with. -/
theorem Cleared.entry_gone {s : Source} {result : Nat × Cache × Disk}
    (h : Cleared c d (marked s) result) (signatures : List String) (theme : Option Theme)
    (bytes : List UInt8) (t : Instant) :
    result.2.2.seen (c.home d.start ++ [entryName s signatures theme]) ≠ some (.file bytes t) :=
  h.gone _ bytes t (occursIn_fingerprint s signatures theme)

/-- Where there is no entry, and no directory in its place, no check finds one. -/
theorem check_of_not_file {s : Source} {chain : Chain} (hchain : chain.IsBuiltin)
    {theme : Option Theme}
    (hfile : ∀ bytes t, d.seen (c.home d.start ++ [entryName s chain.signatures theme]) ≠
      some (.file bytes t))
    (hdirectory : d.isDirectory (c.entryPath s chain.signatures theme) = false) :
    (c.check d s chain.signatures theme).1 = false := by
  rw [check_fst]
  cases hlook : d.look (c.entryPath s chain.signatures theme) with
  | error fault =>
    unfold isCurrent
    rw [hlook]
  | ok item =>
    cases item with
    | directory t =>
      rw [isDirectory, hlook] at hdirectory
      exact absurd hdirectory (by simp [Item.isFile])
    | file bytes t =>
      have hseen := item?_file_iff.mp (look_ok hlook).2
      rw [destination_entryPath c d.start s (noSlash_signatures hchain)] at hseen
      exact absurd hseen (hfile bytes t)

end Clears

/-! ## What comes before -/

/-- What may come to a disk before its cache is cleared: entries, and files and directories
anywhere. -/
inductive Arrival where
  | entry (w : Writing)
  | file (p : Path) (bytes : List UInt8) (now : Instant)
  | directory (p : Path) (now : Instant)

/-- One more thing comes, or cannot. -/
def arrive (sofar : Cache × Disk) : Arrival → Cache × Disk
  | .entry w => writeNext sofar w
  | .file p bytes now =>
    match sofar.2.write p bytes now with
    | .ok d => (sofar.1, d)
    | .error _ => sofar
  | .directory p now => (sofar.1, (sofar.2.makeDirectories p now).2)

/-- The cache and the disk after several things came. -/
def arriveAll (c : Cache) (d : Disk) (arrivals : List Arrival) : Cache × Disk :=
  arrivals.foldl arrive (c, d)

section Arrivals

variable {c : Cache} {d : Disk}

theorem PlainHome.of_new {d' : Disk} (h : PlainHome c d) (hstart : d'.start = d.start)
    (hnew : ∀ l item, d'.seen l = some item →
      d.seen l = some item ∨ ∃ parent name, l = parent ++ [name] ∧ PlainName name) :
    PlainHome c d' := by
  intro name hsome
  obtain ⟨item, hitem⟩ := Option.isSome_iff_exists.mp hsome
  rw [hstart] at hitem
  rcases hnew _ item hitem with hold | ⟨parent, name', hplace, hplain⟩
  · exact h name (Option.isSome_of_eq_some hold)
  · obtain ⟨-, hlast⟩ := List.append_inj' hplace rfl
    exact List.singleton_inj.mp hlast ▸ hplain

/-- **Whatever comes keeps the names in the directory plain.** -/
theorem PlainHome.arrive (h : PlainHome c d) {a : Arrival}
    (ha : ∀ w, a = .entry w → w.chain.IsBuiltin) :
    PlainHome (arrive (c, d) a).1 (arrive (c, d) a).2 := by
  -- Whatever arrives in the directory of the cache has a name from a path, and such a name is
  -- plain.
  cases a with
  | entry w =>
    rcases hwrite : c.write d (w.path c) w.bytes w.now with ⟨result, c', d'⟩
    have hnext : Cache.arrive (c, d) (.entry w) = (c', d') := congrArg Prod.snd hwrite
    rw [hnext]
    exact (write_plain h (ha w rfl) hwrite).2.2
  | file p bytes now =>
    cases hwrite : d.write p bytes now with
    | error fault =>
      have hnext : Cache.arrive (c, d) (.file p bytes now) = (c, d) := by
        rw [Cache.arrive, hwrite]
      rw [hnext]
      exact h
    | ok d' =>
      have hnext : Cache.arrive (c, d) (.file p bytes now) = (c, d') := by
        rw [Cache.arrive, hwrite]
      obtain ⟨haltered, -⟩ := write_ok hwrite
      rw [hnext]
      refine h.of_new haltered.start fun l item hitem => ?_
      by_cases hl : l = p.destination d.start
      · exact .inr (hl ▸ plainName_of_write hwrite)
      · exact .inl (haltered.seen_of_ne hl ▸ hitem)
  | directory p now =>
    have hgrown := makeDirectories_grown d p now
    exact h.of_new hgrown.start fun l item hitem => (hgrown.new l item hitem).imp_right fun hnew =>
      hnew.2.2

theorem PlainHome.arriveAll (h : PlainHome c d) {arrivals : List Arrival}
    (harrivals : ∀ w, .entry w ∈ arrivals → w.chain.IsBuiltin) :
    PlainHome (c.arriveAll d arrivals).1 (c.arriveAll d arrivals).2 := by
  induction arrivals generalizing c d with
  | nil => exact h
  | cons a rest ih =>
    have hfirst := h.arrive (a := a) fun w hw => harrivals w (hw ▸ List.mem_cons_self)
    exact ih hfirst fun w hw => harrivals w (List.mem_cons_of_mem a hw)

end Arrivals

/-- **Clearing is complete and touches nothing else.** Let entries of any sources, chains of
built-in filters and themes, and other files and directories, come to a disk whose cache was empty,
and let the disk permit the cache to be cleared. When it is cleared of a source, none of the
source's entries is left, and no check finds one where no directory stands in its place. When it is
cleared of everything, no file is left in its directory. -/
theorem clear_complete {c : Cache} {d : Disk}
    (hempty : ∀ name, d.seen (c.home d.start ++ [name]) = none) {arrivals : List Arrival}
    (harrivals : ∀ w, .entry w ∈ arrivals → w.chain.IsBuiltin) {c' : Cache} {d' : Disk}
    (hreached : c.arriveAll d arrivals = (c', d')) {now : Instant} (hpermits : Permits c' d' now)
    (s : Source) :
    (Cleared c' d' (marked s) (c'.clearSource d' s now) ∧
      (∀ signatures theme bytes t, (c'.clearSource d' s now).2.2.seen
        (c'.home d'.start ++ [entryName s signatures theme]) ≠ some (.file bytes t)) ∧
      ∀ (chain : Chain) (theme : Option Theme), chain.IsBuiltin →
        (c'.clearSource d' s now).2.2.isDirectory (c'.entryPath s chain.signatures theme) = false →
        ((c'.clearSource d' s now).2.1.check
          (c'.clearSource d' s now).2.2 s chain.signatures theme).1 = false) ∧
      Cleared c' d' (fun _ => true) (c'.clearAll d' now) := by
  have hplain : PlainHome c' d' := by
    have hplain : PlainHome c d := fun name hsome => absurd hsome (by rw [hempty]; decide)
    have hafter := hplain.arriveAll harrivals
    rwa [hreached] at hafter
  have hcleared := cleared_clearSource hplain hpermits s
  refine ⟨⟨hcleared, hcleared.entry_gone, fun chain theme hchain hdirectory => ?_⟩,
    cleared_clearAll hplain hpermits⟩
  have hstart : (c'.clearSource d' s now).2.2.start = d'.start :=
    (removeMatching_thinned rfl hplain (marked s) now).start
  -- No file is left at the entry, so a check could find a directory there and nothing else.
  refine check_of_not_file hchain (fun bytes t => ?_) hdirectory
  rw [hstart]
  exact hcleared.entry_gone chain.signatures theme bytes t

/-! ## A mixed cache -/

/-- The source `a.png`, whose fingerprint is `7f071235805f`. -/
def plainSource : Source :=
  ⟨"a.png", "a.png", "a", 0⟩

/-- Two entries of the source, a file that is no entry, and a directory that has the fingerprint for
its name, with a file that has it as well. -/
def mixedArrivals : List Arrival :=
  [.entry ⟨plainSource, Registry.builtin.chainOf "@invert", none, [1], ⟨1⟩⟩,
    .entry ⟨plainSource, Registry.builtin.chainOf "@darkmode", some .light, [2], ⟨2⟩⟩,
    .file ⟨"c/stray.txt"⟩ [3] ⟨3⟩, .directory ⟨"c/7f071235805f"⟩ ⟨4⟩,
    .file ⟨"c/7f071235805f/7f071235805f.png"⟩ [5] ⟨5⟩]

/-- The cache and the disk with all of these. -/
def mixed : Cache × Disk :=
  arriveAll (ofDirectory ⟨""⟩ ⟨"c"⟩) Disk.empty mixedArrivals

/-- The names in its directory. -/
def mixedNames : List String :=
  ["a_7f071235805f_invert.png", "a_7f071235805f_darkmode_light.png", "stray.txt", "7f071235805f"]

theorem isBuiltin_mixedArrivals : ∀ w, .entry w ∈ mixedArrivals → w.chain.IsBuiltin := by
  intro w hw
  simp only [mixedArrivals, List.mem_cons, Arrival.entry.injEq, reduceCtorEq, List.not_mem_nil,
    or_false] at hw
  rcases hw with rfl | rfl
  · exact Chain.isBuiltin_chainOf _
  · exact Chain.isBuiltin_chainOf _

theorem permits_mixed (now : Instant) : Permits mixed.1 mixed.2 now := by
  have hplain := (plainHome_empty (ofDirectory ⟨""⟩ ⟨"c"⟩)).arriveAll isBuiltin_mixedArrivals
  obtain ⟨hnames, hlooks⟩ : mixed.2.names mixed.1.absoluteDirectory = .ok mixedNames ∧
    ∀ name ∈ mixedNames,
      (mixed.2.look (mixed.1.absoluteDirectory.join ⟨name⟩)).toOption.isSome = true := by
    decide +kernel
  refine permits_of_look hplain hnames (fun name hname => ?_) now
  cases hlook : mixed.2.look (mixed.1.absoluteDirectory.join ⟨name⟩) with
  | ok item => exact ⟨item, hlook⟩
  | error fault =>
    have hsome := hlooks name hname
    rw [hlook] at hsome
    exact absurd hsome (by simp [Except.toOption])

/-- With the source go its two entries, and with everything the three files; the directory and what
is in it stay. -/
theorem clear_complete_mixed :
    Cleared mixed.1 mixed.2 (marked plainSource) (mixed.1.clearSource mixed.2 plainSource ⟨9⟩) ∧
      Cleared mixed.1 mixed.2 (fun _ => true) (mixed.1.clearAll mixed.2 ⟨9⟩) ∧
      mixed.2.lost (mixed.1.clearSource mixed.2 plainSource ⟨9⟩).2.2 =
        [["c", "a_7f071235805f_invert.png"], ["c", "a_7f071235805f_darkmode_light.png"]] ∧
      (mixed.1.clearAll mixed.2 ⟨9⟩).1 = 3 ∧
      ((mixed.1.clearSource mixed.2 plainSource ⟨9⟩).2.1.check
        (mixed.1.clearSource mixed.2 plainSource ⟨9⟩).2.2 plainSource
        (Registry.builtin.chainOf "@invert").signatures none).1 = false := by
  have hempty :
    ∀ name, Disk.empty.seen ((ofDirectory ⟨""⟩ ⟨"c"⟩).home Disk.empty.start ++ [name]) = none :=
    fun name => seen_of_ne_nil _ (by simp)
  obtain ⟨⟨hsource, -, hcheck⟩, hall⟩ :=
    @clear_complete _ _ hempty _ isBuiltin_mixedArrivals mixed.1 mixed.2 rfl _ (permits_mixed ⟨9⟩)
      plainSource
  obtain ⟨hlost, hcount, hdirectory⟩ :
      mixed.2.lost (mixed.1.clearSource mixed.2 plainSource ⟨9⟩).2.2 =
        [["c", "a_7f071235805f_invert.png"], ["c", "a_7f071235805f_darkmode_light.png"]] ∧
      (mixed.1.clearAll mixed.2 ⟨9⟩).1 = 3 ∧
      (mixed.1.clearSource mixed.2 plainSource ⟨9⟩).2.2.isDirectory
        (mixed.1.entryPath plainSource (Registry.builtin.chainOf "@invert").signatures none) =
          false := by
    decide +kernel
  exact ⟨hsource, hall, hlost, hcount, hcheck _ none (Chain.isBuiltin_chainOf _) hdirectory⟩

end Cache

end AltRender

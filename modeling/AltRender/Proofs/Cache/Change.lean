import AltRender.Cache.Change
import AltRender.Proofs.Cache.EntryName
import AltRender.Proofs.Disk.Asking

/-!
# `Proofs/Cache/Change` — what a cache changes on a disk

The names of entries are plain, so the path of an entry leads to its name in the directory of the
cache (`destination_entryPath`). Writing an entry makes directories on the way to the cache and puts
one file into it (`write_cases`); removing entries takes files out of the directory and does nothing
else (`removeMatching_thinned`).

With these three facts other modules need not open what a cache does. That the name is plain is what
they rest on, and it is a fact about signatures: built-in filters sign without a slash
(`noSlash_signatures`), and all other characters of a name are letters, digits and a few marks. A
name with a slash would lead into another directory, and one that is two dots to the directory
above.
-/

set_option autoImplicit false

namespace AltRender.Cache

open AltRender.Disk AltRender.Text

/-! ## Where entries are -/

theorem noSlash_signatures {c : Chain} (h : c.IsBuiltin) : ∀ x ∈ c.signatures, '/' ∉ x.toList := by
  intro x hx hmem
  rcases Chain.plain_or_mark_of_mem_signatures h hx hmem with h | h
  · exact absurd h (by decide)
  · exact absurd h (by decide)

/-- A character of an entry's name is a name character, one of the extension's or one of a
signature's. -/
theorem mem_entryName {s : Source} {signatures : List String} {theme : Option Theme} {c : Char}
    (h : c ∈ (entryName s signatures theme).toList) :
    isNameChar c = true ∨ c ∈ extension.toList ∨ ∃ x ∈ signatures, c ∈ x.toList := by
  rw [toList_entryName, List.mem_append, List.mem_append, List.mem_cons, ← List.map_cons] at h
  rcases h with (hbase | rfl | hpart) | hextension
  · exact .inl (isNameChar_of_mem_sanitize hbase)
  · exact .inl (by decide)
  · rcases mem_of_mem_intercalate hpart with rfl | ⟨cs, hcs, hmem⟩
    · exact .inl (by decide)
    · obtain ⟨x, hx, rfl⟩ := List.mem_map.mp hcs
      rcases List.mem_cons.mp hx with rfl | hx
      · exact .inl (isNameChar_of_isSmallHex (isSmallHex_of_mem_fingerprint hmem))
      · rcases List.mem_append.mp hx with hx | hx
        · exact .inr (.inr ⟨x, hx, hmem⟩)
        · obtain ⟨t, -, rfl⟩ := List.mem_map.mp hx
          have htag : t.tag.toList.all isNameChar = true := by cases t <;> decide
          exact .inl (List.all_eq_true.mp htag c hmem)
  · exact .inr (.inl hextension)

theorem noSlash_entryName (s : Source) {signatures : List String}
    (h : ∀ x ∈ signatures, '/' ∉ x.toList) (theme : Option Theme) :
    '/' ∉ (entryName s signatures theme).toList := by
  intro hmem
  rcases mem_entryName hmem with hname | hextension | ⟨x, hx, hsignature⟩
  · exact absurd hname (by decide)
  · exact absurd hextension (by decide)
  · exact h x hx hsignature

theorem plainName_entryName (s : Source) {signatures : List String}
    (h : ∀ x ∈ signatures, '/' ∉ x.toList) (theme : Option Theme) :
    PlainName (entryName s signatures theme) := by
  have hend : ∃ front, (entryName s signatures theme).toList = front ++ extension.toList :=
    ⟨_, toList_entryName s signatures theme⟩
  obtain ⟨front, hfront⟩ := hend
  have hlength : 4 ≤ (entryName s signatures theme).toList.length := by
    rw [hfront, List.length_append]
    exact Nat.le_add_left _ _
  refine ⟨noSlash_entryName s h theme, ?_, ?_⟩
  · intro hnil
    rw [hnil] at hlength
    exact absurd hlength (by decide)
  · rw [isDots, Bool.or_eq_false_iff, beq_eq_false_iff_ne, beq_eq_false_iff_ne]
    constructor
    all_goals
      intro hdots
      rw [hdots] at hlength
      exact absurd hlength (by decide)

/-- The location of the cache's directory. -/
def home (c : Cache) (start : Location) : Location :=
  c.absoluteDirectory.destination start

/-- **An entry is at its name in the directory of the cache.** -/
theorem destination_entryPath (c : Cache) (start : Location) (s : Source) {signatures : List String}
    (h : ∀ x ∈ signatures, '/' ∉ x.toList) (theme : Option Theme) :
    (c.entryPath s signatures theme).destination start =
      c.home start ++ [entryName s signatures theme] :=
  Path.destination_join start c.absoluteDirectory (plainName_entryName s h theme)

/-! ## Writing -/

/-- What is made for an entry is on the way to the directory of the cache. -/
theorem waypoints_parent (c : Cache) (start : Location) (s : Source) {signatures : List String}
    (h : ∀ x ∈ signatures, '/' ∉ x.toList) (theme : Option Theme) :
    waypoints start ((c.entryPath s signatures theme).parent?.getD c.absoluteDirectory) =
      waypoints start c.absoluteDirectory := by
  cases hparent : (c.entryPath s signatures theme).parent? with
  | none => rfl
  | some q =>
    have hcomponents := Path.components_parent? hparent
    rw [entryPath, Path.components_join _ (plainName_entryName s h theme), List.dropLast_concat]
      at hcomponents
    simp only [Option.getD_some, waypoints, hcomponents]

/-- **Writing makes directories on the way to the file and then installs the file,** if it can. -/
theorem write_ways (c : Cache) (d : Disk) (p : Path) (bytes : List UInt8) (now : Instant) :
    ∃ d₁, Grown (· ∈ waypoints d.start (p.parent?.getD c.absoluteDirectory)) d d₁ ∧
      ((∃ fault, c.write d p bytes now = (.error fault, c, d₁)) ∨
        ∃ c₂ d₂, d₁.install p bytes now = .ok d₂ ∧ c.write d p bytes now = (.ok (), c₂, d₂)) := by
  refine ⟨_, makeDirectories_grown d (p.parent?.getD c.absoluteDirectory) now, ?_⟩
  unfold write
  split
  · rename_i fault d₁ hmade
    rw [hmade]
    exact .inl ⟨fault, rfl⟩
  · rename_i d₁ hmade
    rw [hmade]
    split
    · rename_i fault hinstall
      exact .inl ⟨fault, rfl⟩
    · rename_i d₂ hinstall
      exact .inr ⟨_, d₂, hinstall, rfl⟩

/-- **A write that succeeds made the directories and installed the file.** -/
theorem write_done {c c' : Cache} {d d' : Disk} {p : Path} {bytes : List UInt8} {now : Instant}
    (h : c.write d p bytes now = (.ok (), c', d')) :
    c' = { c with tally := c.tally.addWrite } ∧
      ∃ d₁, d.makeDirectories (p.parent?.getD c.absoluteDirectory) now = (.ok (), d₁) ∧
        d₁.install p bytes now = .ok d' := by
  unfold write at h
  split at h
  · exact absurd h (by simp)
  · rename_i d₁ hmade
    split at h
    · exact absurd h (by simp)
    · rename_i d₂ hinstall
      obtain ⟨-, rfl, rfl⟩ := h
      exact ⟨rfl, d₁, hmade, hinstall⟩

/-- For an entry, the directories are on the way to the cache. -/
theorem write_cases (c : Cache) (d : Disk) (s : Source) {signatures : List String}
    (h : ∀ x ∈ signatures, '/' ∉ x.toList) (theme : Option Theme) (bytes : List UInt8)
    (now : Instant) :
    ∃ d₁, Grown (· ∈ waypoints d.start c.absoluteDirectory) d d₁ ∧
      ((∃ fault, c.write d (c.entryPath s signatures theme) bytes now = (.error fault, c, d₁)) ∨
        ∃ c₂ d₂, d₁.install (c.entryPath s signatures theme) bytes now = .ok d₂ ∧
          c.write d (c.entryPath s signatures theme) bytes now = (.ok (), c₂, d₂)) := by
  rw [← waypoints_parent c d.start s h theme]
  exact write_ways c d (c.entryPath s signatures theme) bytes now

/-! ## Removing -/

/-- **One disk is another without some of the files of a directory.** -/
structure Thinned (home : Location) (d d' : Disk) : Prop where
  start : d'.start = d.start
  seen : ∀ l, d'.seen l = d.seen l ∨
    d'.seen l = none ∧ (∃ bytes t, d.seen l = some (.file bytes t)) ∧ ∃ name, l = home ++ [name]

theorem Thinned.refl (home : Location) (d : Disk) : Thinned home d d :=
  ⟨rfl, fun _ => .inl rfl⟩

theorem Thinned.trans {home : Location} {d d' d'' : Disk} (h : Thinned home d d')
    (h' : Thinned home d' d'') : Thinned home d d'' := by
  refine ⟨h'.start.trans h.start, fun l => ?_⟩
  rcases h'.seen l with hl' | ⟨hnone, ⟨bytes, t, hfile⟩, hname⟩
  · rw [hl']
    exact h.seen l
  · rcases h.seen l with hl | ⟨hgone, -, -⟩
    · exact .inr ⟨hnone, ⟨bytes, t, hl ▸ hfile⟩, hname⟩
    · rw [hgone] at hfile
      exact absurd hfile (by simp)

/-- What is there afterwards was there before. -/
theorem Thinned.seen_of_some {home : Location} {d d' : Disk} (h : Thinned home d d') {l : Location}
    {item : Item} (hl : d'.seen l = some item) : d.seen l = some item := by
  rcases h.seen l with heq | ⟨hnone, -, -⟩
  · rw [← heq, hl]
  · rw [hnone] at hl
    exact absurd hl (by simp)

/-- What is not a file of the directory stays. -/
theorem Thinned.seen_of_outside {home : Location} {d d' : Disk} (h : Thinned home d d')
    {l : Location} (hl : ∀ name, l ≠ home ++ [name]) : d'.seen l = d.seen l := by
  rcases h.seen l with heq | ⟨-, -, name, hname⟩
  · exact heq
  · exact absurd hname (hl name)

theorem removeFile_thinned {home : Location} {d : Disk} {p : Path} {name : String}
    (hp : p.destination d.start = home ++ [name]) (now : Instant) :
    Thinned home d (removeFile d p now).2 := by
  unfold removeFile
  split
  · rename_i d' hremove
    obtain ⟨haltered, hfile⟩ := remove_ok hremove
    refine ⟨haltered.start, fun l => ?_⟩
    by_cases hl : l = p.destination d.start
    · exact .inr ⟨hl ▸ haltered.seen_self, hl ▸ hfile, name, hl.trans hp⟩
    · exact .inl (haltered.seen_of_ne hl)
  · exact Thinned.refl home d

/-- One file removed on the way, if it satisfies the test. -/
def removeNext (directory : Path) (test : String → Bool) (now : Instant) (sofar : Nat × Disk)
    (name : String) : Nat × Disk :=
  if sofar.2.isFile (directory.join ⟨name⟩) && test name then
    let (n, d') := removeFile sofar.2 (directory.join ⟨name⟩) now
    (sofar.1 + n, d')
  else sofar

theorem removeMatching_of_names {directory : Path} {d : Disk} {names : List String}
    (h : d.names directory = .ok names) (test : String → Bool) (now : Instant) :
    removeMatching directory d test now = names.foldl (removeNext directory test now) (0, d) := by
  unfold removeMatching
  rw [h]
  rfl

/-- What is listed has a plain name, if all that is in the directory has one. -/
theorem plainName_of_names {directory : Path} {d : Disk} {home : Location}
    (hhome : directory.destination d.start = home)
    (hplain : ∀ name, (d.seen (home ++ [name])).isSome = true → PlainName name)
    {names : List String} (h : d.names directory = .ok names) : ∀ name ∈ names, PlainName name :=
  fun name hname => hplain name (hhome ▸ names_ok h name hname)

theorem removeNext_thinned {directory : Path} {home : Location} {sofar : Nat × Disk}
    (hhome : directory.destination sofar.2.start = home) {name : String} (hname : PlainName name)
    (test : String → Bool) (now : Instant) :
    Thinned home sofar.2 (removeNext directory test now sofar name).2 := by
  unfold removeNext
  split
  · have hp : (directory.join ⟨name⟩).destination sofar.2.start = home ++ [name] := by
      rw [Path.destination_join _ _ hname, hhome]
    exact removeFile_thinned hp now
  · exact Thinned.refl home sofar.2

theorem foldl_removeNext_thinned {directory : Path} {home : Location} {test : String → Bool}
    {now : Instant} {names : List String} (hnames : ∀ name ∈ names, PlainName name)
    {sofar : Nat × Disk} (hhome : directory.destination sofar.2.start = home) :
    Thinned home sofar.2 (names.foldl (removeNext directory test now) sofar).2 := by
  induction names generalizing sofar with
  | nil => exact Thinned.refl home sofar.2
  | cons name rest ih =>
    have hfirst := removeNext_thinned hhome (hnames name List.mem_cons_self) test now
    rw [List.foldl_cons]
    exact hfirst.trans
      (ih (fun n hn => hnames n (List.mem_cons_of_mem name hn)) (hfirst.start ▸ hhome))

/-- **Removing files by name takes files out of the directory and does nothing else,** if all names
in it are plain. -/
theorem removeMatching_thinned {directory : Path} {d : Disk} {home : Location}
    (hhome : directory.destination d.start = home)
    (hplain : ∀ name, (d.seen (home ++ [name])).isSome = true → PlainName name)
    (test : String → Bool) (now : Instant) :
    Thinned home d (removeMatching directory d test now).2 := by
  cases hnames : d.names directory with
  | error fault =>
    rw [removeMatching, hnames]
    exact Thinned.refl home d
  | ok names =>
    have hall := plainName_of_names hhome hplain hnames
    have hthinned := @foldl_removeNext_thinned directory home test now names hall (0, d) hhome
    rw [removeMatching_of_names hnames]
    exact hthinned

/-! ## What is removed for sure -/

theorem Thinned.isDirectoryAt_mono {home : Location} {d d' : Disk} (h : Thinned home d d')
    {l : Location} (hl : d.isDirectoryAt l = true) : d'.isDirectoryAt l = true := by
  have hfolder := isDirectoryAt_iff.mp hl
  rcases h.seen l with heq | ⟨-, ⟨bytes, t, hfile⟩, -⟩
  · rw [isDirectoryAt_congr heq, hl]
  · rw [hfolder] at hfile
    exact absurd hfile (by simp [folder])

section Removes

variable {directory : Path} {home : Location} {test : String → Bool} {now : Instant} {name : String}
  {bytes : List UInt8} {t : Instant}

theorem removeNext_removes {sofar : Nat × Disk} (hhome : directory.destination sofar.2.start = home)
    (hname : PlainName name) (htest : test name = true)
    (hfind : (sofar.2.seen (home ++ [name])).isSome = true →
      sofar.2.find (directory.join ⟨name⟩) = .ok (home ++ [name])) :
    (removeNext directory test now sofar name).2.seen (home ++ [name]) ≠ some (.file bytes t) := by
  intro hfile
  have hthinned := removeNext_thinned hhome hname test now
  have hbefore := hthinned.seen_of_some hfile
  have hfound := hfind (by rw [hbefore]; rfl)
  -- So it counts as a file, and its removal does not fail.
  have hisFile : sofar.2.isFile (directory.join ⟨name⟩) = true := by
    rw [isFile, look_of_find hfound (item?_file_iff.mpr hbefore)]
    rfl
  obtain ⟨d, hremove⟩ := remove_of_find_join hname hfound hbefore now
  obtain ⟨haltered, -⟩ := remove_ok hremove
  rw [removeNext, hisFile, htest, Bool.and_self, if_pos rfl, removeFile, hremove] at hfile
  rw [Path.destination_join _ _ hname, hhome] at haltered
  rw [show (_ : Disk).seen _ = none from haltered.seen_self] at hfile
  exact absurd hfile (by simp)

theorem foldl_removeNext_removes {names : List String} (hnames : ∀ n ∈ names, PlainName n)
    (hmem : name ∈ names) (htest : test name = true) {sofar : Nat × Disk}
    (hhome : directory.destination sofar.2.start = home)
    (hfind : (sofar.2.seen (home ++ [name])).isSome = true →
      sofar.2.find (directory.join ⟨name⟩) = .ok (home ++ [name])) :
    (names.foldl (removeNext directory test now) sofar).2.seen (home ++ [name]) ≠
      some (.file bytes t) := by
  induction names generalizing sofar with
  | nil => exact absurd hmem List.not_mem_nil
  | cons first rest ih =>
    have hfirst := removeNext_thinned hhome (hnames first List.mem_cons_self) test now
    have hrest : ∀ n ∈ rest, PlainName n := fun n hn => hnames n (List.mem_cons_of_mem first hn)
    have hhome' := hfirst.start ▸ hhome
    rw [List.foldl_cons]
    by_cases hsame : first = name
    · -- Once it is removed, it stays so.
      subst hsame
      intro hfile
      have hthinned := @foldl_removeNext_thinned directory home test now rest hrest _ hhome'
      exact removeNext_removes hhome (hnames _ hmem) htest hfind (hthinned.seen_of_some hfile)
    · -- Another file is removed first, which leaves this one where it was found.
      have hin : name ∈ rest := (List.mem_cons.mp hmem).resolve_left (Ne.symm hsame)
      refine ih hrest hin hhome' fun hsome => ?_
      obtain ⟨item, hitem⟩ := Option.isSome_iff_exists.mp hsome
      have hfound := hfind (by rw [hfirst.seen_of_some hitem]; rfl)
      exact find_mono hfirst.start (fun _ hl => hfirst.isDirectoryAt_mono hl) hfound hsome

/-- **A file that is found at its name is removed if the test says so.** -/
theorem removeMatching_removes {d : Disk} (hdirectory : directory.text.toList ≠ [])
    (hhome : directory.destination d.start = home)
    (hplain : ∀ n, (d.seen (home ++ [n])).isSome = true → PlainName n) (hname : PlainName name)
    (htest : test name = true)
    (hfind : (d.seen (home ++ [name])).isSome = true →
      d.find (directory.join ⟨name⟩) = .ok (home ++ [name])) :
    (removeMatching directory d test now).2.seen (home ++ [name]) ≠ some (.file bytes t) := by
  intro hfile
  have hsome : (d.seen (home ++ [name])).isSome = true := by
    rw [(removeMatching_thinned hhome hplain test now).seen_of_some hfile]
    rfl
  obtain ⟨hfound, hdir⟩ := find_of_find_join hname hdirectory (hfind hsome)
  obtain ⟨names, hnames, hmem⟩ := exists_names hfound hdir (hhome ▸ hsome)
  have hall := plainName_of_names hhome hplain hnames
  rw [removeMatching_of_names hnames] at hfile
  exact @foldl_removeNext_removes directory home test now name bytes t names hall hmem htest (0,
    d) hhome hfind hfile

end Removes

end AltRender.Cache

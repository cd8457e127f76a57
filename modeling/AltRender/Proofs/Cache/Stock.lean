import AltRender.Proofs.Cache.Staging
import AltRender.Proofs.Disk.Below

/-!
# `Proofs/Cache/Stock` — the directory of a cache as entries come in

However many entries are written and in whatever order, the disk is one of three (`Stocked`): as it
was at the start, as it is when the directory of the cache could not be made, or with the directory
made and files put into it. What a check finds under a name that nothing was put under is what it
would have found at the start (`Stocked.look_iff`), and whether an entry can be put under a name
does not change either (`Stocked.stow_eq`).

Between the first entry and the last the disk changes in a way that cannot be undone by forgetting
the entries: the directory of the cache comes to be. Before that nothing can be found in it and
everything might fail; after that each entry is on its own. So the three cases are kept apart, and
the one in the middle is there for a directory that cannot be made, where parts of the way to it may
have been. There every entry fails for one reason (`Stocked.stow_eq`), and for the same reason as at
the start.
-/

set_option autoImplicit false

namespace AltRender

open AltRender.Disk AltRender.Text

namespace Disk

variable {d e : Disk} {p : Path} {name : String} {now : Instant}

/-- Where a file goes under a name below a directory, and the disk with the directory made for
it. -/
def stow (d : Disk) (p : Path) (name : String) (now : Instant) : Except Fault Location × Disk :=
  match d.makeDirectories p.entrance now with
  | (.error fault, e) => (.error fault, e)
  | (.ok (), e) => (e.fileSlot (p.join ⟨name⟩), e)

theorem stow_of_error {fault : Fault} (h : d.makeDirectories p.entrance now = (.error fault, e))
    (name : String) : d.stow p name now = (.error fault, e) := by
  unfold stow
  generalize d.makeDirectories p.entrance now = made at h
  subst h
  rfl

theorem stow_of_ok (h : d.makeDirectories p.entrance now = (.ok (), e)) (name : String) :
    d.stow p name now = (e.fileSlot (p.join ⟨name⟩), e) := by
  unfold stow
  generalize d.makeDirectories p.entrance now = made at h
  subst h
  rfl

theorem Looks.fileSlot (h : Looks d e) (q : Path) : e.fileSlot q = d.fileSlot q := by
  simp only [Disk.fileSlot, h.target, h.isDirectoryAt]

theorem stow_fst (d : Disk) (p : Path) (name : String) (now now' : Instant) :
    (d.stow p name now').1 = (d.stow p name now).1 := by
  obtain ⟨hresult, hlooks⟩ := (Looks.refl d).makeAll now now' p.entrance.ancestors
  unfold stow makeDirectories
  generalize makeAll now p.entrance.ancestors d = made at hresult hlooks ⊢
  generalize makeAll now' p.entrance.ancestors d = made' at hresult hlooks ⊢
  obtain ⟨result, e⟩ := made
  obtain ⟨result', e'⟩ := made'
  obtain rfl : result' = result := hresult
  cases result' with
  | error fault => rfl
  | ok u => exact hlooks.fileSlot _

/-! ## Files put into a directory -/

/-- **One disk is another with files put into a directory** under some names, where no directories
stood. -/
structure Filled (home : Location) (names : String → Prop) (d e : Disk) : Prop where
  start : e.start = d.start
  directory : ∀ l, e.isDirectoryAt l = d.isDirectoryAt l
  elsewhere : ∀ l, (∀ name, names name → l ≠ home ++ [name]) → e.seen l = d.seen l
  unnamed : ∀ name, ¬ names name → e.item? (home ++ [name]) = d.item? (home ++ [name])

theorem Filled.refl (home : Location) (names : String → Prop) (d : Disk) : Filled home names d d :=
  ⟨rfl, fun _ => rfl, fun _ _ => rfl, fun _ _ => rfl⟩

theorem Filled.place {home : Location} {names names' : String → Prop} (h : Filled home names d e)
    (hnames : ∀ m, names' m ↔ names m ∨ m = name) (hhome : e.isDirectoryAt home = true)
    (hfile : e.isDirectoryAt (home ++ [name]) = false) (bytes : List UInt8) (now : Instant) :
    Filled home names' d (e.place (home ++ [name]) (.file bytes now) now) := by
  have haltered := altered_place hhome name (.file bytes now) now
  refine ⟨haltered.start.trans h.start, fun l => ?_, fun l hl => ?_, fun m hm => ?_⟩
  · rw [← h.directory, Bool.eq_iff_iff]
    by_cases hl : l = home ++ [name]
    · subst hl
      rw [hfile, isDirectoryAt_iff, haltered.seen_self]
      simp [Item.bare, folder]
    · rw [isDirectoryAt_congr (haltered.seen_of_ne hl)]
  · rw [haltered.seen_of_ne (hl name ((hnames name).mpr (.inr rfl)))]
    exact h.elsewhere l fun m hm => hl m ((hnames m).mpr (.inl hm))
  · obtain ⟨hold, hne⟩ := not_or.mp fun hor => hm ((hnames m).mpr hor)
    rw [← h.unnamed m hold]
    refine item?_place e ?_ ?_ _ now
    · intro heq
      exact hne (List.singleton_inj.mp (List.append_cancel_left heq))
    · rw [List.dropLast_concat]
      simp

/-! ## Entries coming in -/

/-- **A disk that entries came into** under some names below a path, if any was tried at all. -/
inductive Stocked (p : Path) (d : Disk) (tried : Prop) (names : String → Prop) : Disk → Prop
  /-- Nothing was tried. -/
  | untouched (htried : ¬ tried) (hnames : ∀ name, ¬ names name) : Stocked p d tried names d
  /-- The directory could not be made. -/
  | refused {now : Instant} {fault : Fault} {e : Disk} (htried : tried)
      (hnames : ∀ name, ¬ names name)
      (hmade : d.makeDirectories p.entrance now = (.error fault, e)) :
      Stocked p d tried names e
  /-- It was made, and files were put into it. -/
  | filled {now : Instant} {base e : Disk} (htried : tried)
      (hmade : d.makeDirectories p.entrance now = (.ok (), base))
      (hfilled : Filled (p.destination d.start) names base e) : Stocked p d tried names e

namespace Stocked

variable {tried : Prop} {names : String → Prop}

theorem grown_of_made {result : Except Fault Unit}
    (h : d.makeDirectories p.entrance now = (result, e)) : Grown (fun _ => True) d e :=
  makeAll_eq_grown h

theorem start (h : Stocked p d tried names e) : e.start = d.start := by
  cases h with
  | untouched => rfl
  | refused _ _ hmade => exact (grown_of_made hmade).start
  | filled _ hmade hfilled => exact hfilled.start.trans (grown_of_made hmade).start

theorem directory (h : Stocked p d tried names e) {l : Location} (hl : d.isDirectoryAt l = true) :
    e.isDirectoryAt l = true := by
  have hgrown : ∀ {b : Disk}, Grown (fun _ => True) d b → b.isDirectoryAt l = true := fun hgrown =>
    isDirectoryAt_iff.mpr (hgrown.kept _ _ (isDirectoryAt_iff.mp hl))
  cases h with
  | untouched => exact hl
  | refused _ _ hmade => exact hgrown (grown_of_made hmade)
  | filled _ hmade hfilled =>
    rw [hfilled.directory]
    exact hgrown (grown_of_made hmade)

/-- **What is there stays,** but for what stands under the names. -/
theorem kept (h : Stocked p d tried names e) {l : Location}
    (hl : ∀ name, l ≠ p.destination d.start ++ [name]) {item : Item}
    (hitem : d.seen l = some item) :
    e.seen l = some item := by
  cases h with
  | untouched => exact hitem
  | refused _ _ hmade => exact (grown_of_made hmade).kept l item hitem
  | filled _ hmade hfilled =>
    rw [hfilled.elsewhere l fun name _ => hl name]
    exact (grown_of_made hmade).kept l item hitem

section Climbs

variable (htree : d.IsTree) (hclimbs : p.ClimbsOn d)
include htree hclimbs

theorem item?_eq (h : Stocked p d tried names e) (hname : ¬ names name) :
    e.item? (p.destination d.start ++ [name]) = d.item? (p.destination d.start ++ [name]) := by
  have hmade {now result b} (hmade : d.makeDirectories p.entrance now = (result, b)) :
      b.item? (p.destination d.start ++ [name]) = d.item? (p.destination d.start ++ [name]) := by
    have hsame := (makeDirectories_above htree hclimbs now).2 name
    rwa [hmade] at hsame
  cases h with
  | untouched => rfl
  | refused _ _ hrefused => exact hmade hrefused
  | filled _ hready hfilled => exact (hfilled.unnamed name hname).trans (hmade hready)

theorem seen_elsewhere (h : Stocked p d tried names e) {l : Location}
    (habove : ¬ l <+: p.destination d.start) (hname : ∀ name, l ≠ p.destination d.start ++ [name]) :
    e.seen l = d.seen l := by
  have hmade {now result b} (hmade : d.makeDirectories p.entrance now = (result, b)) : b.seen l =
    d.seen l := by
    have hgrown := (makeDirectories_above htree hclimbs now).1
    rw [hmade] at hgrown
    cases hbefore : d.seen l with
    | some item => exact hgrown.kept l item hbefore
    | none =>
      -- What is made is above the names.
      by_contra hsome
      obtain ⟨item, hitem⟩ := Option.ne_none_iff_exists'.mp hsome
      rcases hgrown.new l item hitem with hold | ⟨-, hl, -⟩
      · rw [hbefore] at hold
        exact absurd hold (by simp)
      · exact habove hl
  cases h with
  | untouched => rfl
  | refused _ _ hrefused => exact hmade hrefused
  | filled _ hready hfilled => rw [hfilled.elsewhere l fun name _ => hname name, hmade hready]

/-- **What a check finds under such a name is what it would have found at the start.** -/
theorem look_iff (h : Stocked p d tried names e) (hplain : PlainName name) (hname : ¬ names name)
    {item : Item} : e.look (p.join ⟨name⟩) = .ok item ↔ d.look (p.join ⟨name⟩) = .ok item :=
  look_join_iff htree hclimbs hplain h.start (fun _ hl => h.directory hl)
    (h.item?_eq htree hclimbs hname)

theorem ready {base : Disk} (hmade : d.makeDirectories p.entrance now = (.ok (), base))
    (hfilled : Filled (p.destination d.start) names base e) : base.Ready p ∧ e.Ready p := by
  have hready := ready_of_makeDirectories htree hclimbs hmade
  exact ⟨hready, hready.mono hfilled.start fun l hl => (hfilled.directory l).trans hl⟩

/-- **Whether an entry can be put under a name does not change,** and trying it changes nothing
else. -/
theorem stow_eq (h : Stocked p d tried names e) (hplain : PlainName name) (now now' : Instant)
    {tried' : Prop} (htried' : tried') :
    (e.stow p name now).1 = (d.stow p name now').1 ∧
    Stocked p d tried' names (e.stow p name now).2 ∧
      ((e.stow p name now).2 = e ∨ ∀ m, ¬ names m) := by
  cases h with
  | untouched _ hnames =>
    refine ⟨stow_fst d p name now' now, ?_, .inr hnames⟩
    rcases hmade : d.makeDirectories p.entrance now with ⟨result, b⟩
    cases result with
    | error fault =>
      rw [stow_of_error hmade]
      exact .refused htried' hnames hmade
    | ok u =>
      rw [stow_of_ok hmade]
      exact .filled htried' hmade (Filled.refl _ names b)
  | @refused t fault _ _ hnames hmade =>
    -- It could not be made and cannot be made now, for the same reason.
    have hagain : e.makeDirectories p.entrance now = (.error fault, e) :=
      makeAll_again htree hclimbs.entrance hmade now
    rw [stow_fst d p name t now', stow_of_error hmade, stow_of_error hagain]
    exact ⟨rfl, .refused htried' hnames hmade, .inl rfl⟩
  | @filled t base _ _ hmade hfilled =>
    obtain ⟨hbase, hready⟩ := ready htree hclimbs hmade hfilled
    rw [stow_fst d p name t now', stow_of_ok hmade, stow_of_ok (hready.makeDirectories now)]
    exact ⟨hbase.fileSlot hready hfilled.start hfilled.directory hplain,
      .filled htried' hmade hfilled, .inl rfl⟩

theorem filled_of_stow (h : Stocked p d tried names e) {l : Location} {e' : Disk}
    (hstow : e.stow p name now = (.ok l, e')) :
    (e' = e ∨ ∀ m, ¬ names m) ∧ e'.fileSlot (p.join ⟨name⟩) = .ok l ∧
      ∃ t base, d.makeDirectories p.entrance t = (.ok (), base) ∧
        Filled (p.destination d.start) names base e' := by
  cases h with
  | untouched _ hnames =>
    rcases hmade : d.makeDirectories p.entrance now with ⟨result, b⟩
    cases result with
    | error fault =>
      rw [stow_of_error hmade] at hstow
      exact absurd (Prod.mk.inj hstow).1 (by simp)
    | ok u =>
      rw [stow_of_ok hmade] at hstow
      obtain ⟨hslot, rfl⟩ := Prod.mk.inj hstow
      exact ⟨.inr hnames, hslot, now, b, hmade, Filled.refl _ names b⟩
  | refused _ hnames hmade =>
    rw [stow_of_error (makeAll_again htree hclimbs.entrance hmade now)] at hstow
    exact absurd (Prod.mk.inj hstow).1 (by simp)
  | @filled t base _ _ hmade hfilled =>
    rw [stow_of_ok ((ready htree hclimbs hmade hfilled).2.makeDirectories now)] at hstow
    obtain ⟨hslot, rfl⟩ := Prod.mk.inj hstow
    exact ⟨.inl rfl, hslot, t, base, hmade, hfilled⟩

/-- **An entry put under a name** is there, and the others are as they were. -/
theorem place (h : Stocked p d tried names e) (hplain : PlainName name) {l : Location} {e' : Disk}
    (hstow : e.stow p name now = (.ok l, e')) {tried' : Prop} (htried' : tried')
    {names' : String → Prop} (hnames : ∀ m, names' m ↔ names m ∨ m = name) (bytes : List UInt8) :
    Stocked p d tried' names' (e'.place l (.file bytes now) now) ∧
      (e'.place l (.file bytes now) now).seen (p.destination d.start ++ [name]) =
        some (.file bytes now) ∧
      ∀ m, names m → m ≠ name →
      (e'.place l (.file bytes now) now).seen (p.destination d.start ++ [m]) =
        e.seen (p.destination d.start ++ [m]) := by
  obtain ⟨hsame, hslot, t, base, hmade, hfilled⟩ := h.filled_of_stow htree hclimbs hstow
  obtain ⟨hl, parent, last, hparent, hdir⟩ := fileSlot_ok hslot
  rw [hfilled.start, (grown_of_made hmade).start, Path.destination_join _ p hplain] at hl
  have hhome : parent ++ [last] = p.destination d.start ++ [name] := hparent.symm.trans hl
  obtain ⟨rfl, -⟩ := List.append_inj' hhome rfl
  obtain ⟨-, -, -, -, -, -, hfile⟩ := fileSlot_cases hslot
  subst hl
  have haltered := altered_place hdir name (.file bytes now) now
  refine ⟨.filled htried' hmade (hfilled.place hnames hdir hfile bytes now),
    haltered.seen_self, fun m hm hne => ?_⟩
  rw [haltered.seen_of_ne fun heq => hne (List.singleton_inj.mp (List.append_cancel_left heq))]
  rcases hsame with rfl | hnone
  · rfl
  · exact absurd hm (hnone m)

/-- **An entry that was put under a name is found there.** -/
theorem look_named (h : Stocked p d tried names e) (hplain : PlainName name) (hname : names name)
    {l : Location} (hstow : (d.stow p name now).1 = .ok l) {bytes : List UInt8} {t : Instant}
    (hfile : e.seen (p.destination d.start ++ [name]) = some (.file bytes t)) :
    e.look (p.join ⟨name⟩) = .ok (.file bytes t) := by
  have hsame := (h.stow_eq htree hclimbs hplain now now trivial).1.trans hstow
  cases h with
  | untouched _ hnames => exact absurd hname (hnames name)
  | refused _ hnames _ => exact absurd hname (hnames name)
  | filled _ hmade hfilled =>
    rw [stow_of_ok ((ready htree hclimbs hmade hfilled).2.makeDirectories now)] at hsame
    have hl : l = p.destination d.start ++ [name] := by
      rw [(fileSlot_ok hsame).1, hfilled.start, (grown_of_made hmade).start,
        Path.destination_join _ p hplain]
    subst hl
    exact look_of_find (find_of_fileSlot hsame (by rw [hfile]; rfl)) (item?_file_iff.mpr hfile)

end Climbs

/-- **Two disks that the same names came into differ at these names and in times of directories
only.** -/
theorem seen_eq (h : Stocked p d tried names e) {e' : Disk} (h' : Stocked p d tried names e')
    {l : Location} (hl : ∀ m, names m → l ≠ p.destination d.start ++ [m]) :
    e'.seen l = e.seen l := by
  have hlooks {t t' : Instant} {result result' : Except Fault Unit} {b b' : Disk}
      (hmade : d.makeDirectories p.entrance t = (result, b))
      (hmade' : d.makeDirectories p.entrance t' = (result', b')) : result' = result ∧
        b'.seen = b.seen := by
    obtain ⟨hresult, hlooks⟩ := (Looks.refl d).makeAll t t' p.entrance.ancestors
    rw [makeDirectories] at hmade hmade'
    rw [hmade, hmade'] at hresult hlooks
    exact ⟨hresult, hlooks.seen⟩
  -- Both disks were tried or neither was; and the directories are made alike at any time, so that
  -- both stand in the same case.
  cases h with
  | untouched htried _ =>
    cases h' with
    | untouched => rfl
    | refused htried' _ _ | filled htried' _ _ => exact absurd htried' htried
  | refused htried _ hmade =>
    cases h' with
    | untouched htried' _ => exact absurd htried htried'
    | refused _ _ hmade' => rw [(hlooks hmade hmade').2]
    | filled _ hmade' _ => exact absurd (hlooks hmade hmade').1 (by simp)
  | filled htried hmade hfilled =>
    cases h' with
    | untouched htried' _ => exact absurd htried htried'
    | refused _ _ hmade' => exact absurd (hlooks hmade hmade').1 (by simp)
    | filled _ hmade' hfilled' =>
      rw [hfilled.elsewhere l hl, hfilled'.elsewhere l hl, (hlooks hmade hmade').2]

end Stocked

end Disk

namespace Cache

/-- **To write an entry is to put it under its name.** -/
theorem write_eq (c : Cache) (d : Disk) {name : String} (h : PlainName name) (bytes : List UInt8)
    (now : Instant) :
    c.write d (c.absoluteDirectory.join ⟨name⟩) bytes now =
      match d.stow c.absoluteDirectory name now with
      | (.error fault, e) => (.error fault, c, e)
      | (.ok l, e) =>
        (.ok (), { c with tally := c.tally.addWrite }, e.place l (.file bytes now) now) := by
  have hparent : (c.absoluteDirectory.join ⟨name⟩).parent?.getD c.absoluteDirectory =
    c.absoluteDirectory.entrance := by
    rw [c.absoluteDirectory.parent?_join h, Option.getD_some]
  unfold write stow
  rw [hparent]
  generalize d.makeDirectories c.absoluteDirectory.entrance now = made
  obtain ⟨result, e⟩ := made
  cases result with
  | error fault => rfl
  | ok u =>
    simp only [install_eq]
    cases e.fileSlot (c.absoluteDirectory.join ⟨name⟩) <;> rfl

theorem stow_of_unwritten {c c' : Cache} {d e : Disk} {name : String} (h : PlainName name)
    {bytes : List UInt8} {now : Instant} {fault : Fault}
    (hwrite : c.write d (c.absoluteDirectory.join ⟨name⟩) bytes now = (.error fault, c', e)) :
    d.stow c.absoluteDirectory name now = (.error fault, e) ∧ c' = c := by
  rw [write_eq c d h] at hwrite
  generalize d.stow c.absoluteDirectory name now = stowed at hwrite ⊢
  obtain ⟨slot, e'⟩ := stowed
  cases slot with
  | ok l => exact absurd (Prod.mk.inj hwrite).1 (by simp)
  | error fault' =>
    obtain ⟨hfault, hrest⟩ := Prod.mk.inj hwrite
    obtain ⟨rfl, rfl⟩ := Prod.mk.inj hrest
    obtain rfl : fault' = fault := Except.error.inj hfault
    exact ⟨rfl, rfl⟩

theorem stow_of_written {c c' : Cache} {d d' : Disk} {name : String} (h : PlainName name)
    {bytes : List UInt8} {now : Instant}
    (hwrite : c.write d (c.absoluteDirectory.join ⟨name⟩) bytes now = (.ok (), c', d')) :
    ∃ l e, d.stow c.absoluteDirectory name now = (.ok l, e) ∧
      c' = { c with tally := c.tally.addWrite } ∧
      d' = e.place l (.file bytes now) now := by
  rw [write_eq c d h] at hwrite
  generalize d.stow c.absoluteDirectory name now = stowed at hwrite ⊢
  obtain ⟨slot, e⟩ := stowed
  cases slot with
  | error fault => exact absurd (Prod.mk.inj hwrite).1 (by simp)
  | ok l =>
    obtain ⟨-, hrest⟩ := Prod.mk.inj hwrite
    obtain ⟨rfl, rfl⟩ := Prod.mk.inj hrest
    exact ⟨l, e, rfl, rfl, rfl⟩

end Cache

end AltRender

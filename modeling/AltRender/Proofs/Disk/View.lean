import AltRender.Disk.Change
import AltRender.Proofs.Disk.Waypoint

/-!
# `Proofs/Disk/View` — what changes on a disk, and what does not

What matters about a disk is what stands where, apart from the times of directories, which no check
looks at: what is *seen* at each location. Writing, installing and removing a file change what is
seen at one location, the destination of the path, and making directories adds some on the way of
the path. Each operation has one lemma that says so, and everything else about disks follows from
these.

There are two forms of change. A disk is `Altered` at a location when nothing but what is seen there
is different, and it has `Grown` at some places when nothing but directories has come to it, and
these only there.
-/

set_option autoImplicit false

namespace AltRender.Disk

open AltRender.Text

/-! ## What is seen -/

/-- A directory, whenever it was changed. -/
def folder : Item := .directory ⟨0⟩

/-- The item without the time of a directory. -/
def Item.bare : Item → Item
  | .file bytes changed => .file bytes changed
  | .directory _ => folder

/-- What stands at a location, the time of a directory aside. -/
def seen (d : Disk) (l : Location) : Option Item :=
  (d.item? l).map Item.bare

@[simp] theorem seen_nil (d : Disk) : d.seen [] = some folder := rfl

theorem seen_of_ne_nil (d : Disk) {l : Location} (h : l ≠ []) :
    d.seen l = (d.items.get? l).map Item.bare := by
  rw [seen, item?, if_neg (by simpa using h)]

theorem isDirectoryAt_iff {d : Disk} {l : Location} :
    d.isDirectoryAt l = true ↔ d.seen l = some folder := by
  unfold isDirectoryAt seen
  cases h : d.item? l with
  | none => simp
  | some item => cases item <;> simp [Item.bare, folder]

theorem item?_of_isDirectoryAt {d : Disk} {l : Location} (h : d.isDirectoryAt l = true) :
    ∃ changed, d.item? l = some (.directory changed) := by
  unfold isDirectoryAt at h
  split at h
  · rename_i changed hitem
    exact ⟨changed, hitem⟩
  · exact absurd h (by decide)

theorem item?_file_iff {d : Disk} {l : Location} {bytes : List UInt8} {t : Instant} :
    d.item? l = some (.file bytes t) ↔ d.seen l = some (.file bytes t) := by
  unfold seen
  cases h : d.item? l with
  | none => simp
  | some item => cases item <;> simp [Item.bare, folder]

theorem isSome_item? (d : Disk) (l : Location) : (d.item? l).isSome = (d.seen l).isSome := by
  rw [seen, Option.isSome_map]

/-! ## At locations -/

theorem seen_insert (d : Disk) {l : Location} (hl : l ≠ []) (item : Item) (k : Location) :
    ({ d with items := d.items.insert l item } : Disk).seen k = if k = l then some item.bare
    else d.seen k := by
  by_cases hk : k = []
  · subst hk
    rw [if_neg (Ne.symm hl), seen_nil, seen_nil]
  · rw [seen_of_ne_nil _ hk, seen_of_ne_nil _ hk, Keyed.get?_insert]
    by_cases hkl : k = l
    · rw [if_pos hkl.symm, if_pos hkl, Option.map_some]
    · rw [if_neg (Ne.symm hkl), if_neg hkl]

theorem seen_erase (d : Disk) {l : Location} (hl : l ≠ []) (k : Location) :
    ({ d with items := d.items.erase l } : Disk).seen k = if k = l then none else d.seen k := by
  by_cases hk : k = []
  · subst hk
    rw [if_neg (Ne.symm hl), seen_nil, seen_nil]
  · rw [seen_of_ne_nil _ hk, seen_of_ne_nil _ hk, Keyed.get?_erase]
    by_cases hkl : k = l
    · rw [if_pos hkl, if_pos hkl, Option.map_none]
    · rw [if_neg hkl, if_neg hkl]

theorem start_stamp (d : Disk) (l : Location) (now : Instant) :
    (d.stamp l now).start = d.start := by
  unfold stamp
  split <;> rfl

/-- The time of a directory is not seen. -/
theorem seen_stamp {d : Disk} {l : Location} (h : d.isDirectoryAt l = true) (now : Instant) :
    (d.stamp l now).seen = d.seen := by
  funext k
  unfold stamp
  split
  · rename_i item hitem
    by_cases hl : l = []
    · subst hl
      by_cases hk : k = []
      · subst hk
        rfl
      · rw [seen_of_ne_nil _ hk, seen_of_ne_nil _ hk, Keyed.get?_insert, if_neg (Ne.symm hk)]
    · rw [seen_insert d hl]
      split
      · rename_i hkl
        have hseen := isDirectoryAt_iff.mp h
        rw [seen_of_ne_nil d hl, hitem, Option.map_some] at hseen
        rw [hkl, seen_of_ne_nil d hl, hitem, Option.map_some, hseen]
        cases item with
        | file bytes t => exact absurd (Option.some.inj hseen) (by simp [Item.bare, folder])
        | directory t => rfl
      · rfl
  · rfl

theorem isDirectoryAt_congr {d d' : Disk} {l : Location} (h : d'.seen l = d.seen l) :
    d'.isDirectoryAt l = d.isDirectoryAt l := by
  rw [Bool.eq_iff_iff, isDirectoryAt_iff, isDirectoryAt_iff, h]

/-- **One disk is another with something else at one location.** -/
structure Altered (d : Disk) (l : Location) (item : Option Item) (d' : Disk) : Prop where
  start : d'.start = d.start
  seen : ∀ k, d'.seen k = if k = l then item else d.seen k

theorem Altered.seen_self {d d' : Disk} {l : Location} {item : Option Item}
    (h : Altered d l item d') : d'.seen l = item := by
  rw [h.seen, if_pos rfl]

theorem Altered.seen_of_ne {d d' : Disk} {l k : Location} {item : Option Item}
    (h : Altered d l item d') (hk : k ≠ l) : d'.seen k = d.seen k := by
  rw [h.seen, if_neg hk]

theorem altered_place {d : Disk} {parent : Location} (h : d.isDirectoryAt parent = true)
    (name : String) (item : Item) (now : Instant) :
    Altered d (parent ++ [name]) (some item.bare) (d.place (parent ++ [name]) item now) := by
  have hne : parent ++ [name] ≠ [] := by simp
  refine ⟨start_stamp _ _ _, fun k => ?_⟩
  rw [place, List.dropLast_concat, seen_stamp _ now, seen_insert d hne]
  rw [isDirectoryAt_congr, h]
  rw [seen_insert d hne, if_neg (by simp)]

theorem altered_takeAway {d : Disk} {parent : Location} (h : d.isDirectoryAt parent = true)
    (name : String) (now : Instant) :
    Altered d (parent ++ [name]) none (d.takeAway (parent ++ [name]) now) := by
  have hne : parent ++ [name] ≠ [] := by simp
  refine ⟨start_stamp _ _ _, fun k => ?_⟩
  rw [takeAway, List.dropLast_concat, seen_stamp _ now, seen_erase d hne]
  rw [isDirectoryAt_congr, h]
  rw [seen_erase d hne, if_neg (by simp)]

/-! ## Files -/

theorem child_ok {parent l : Location} {name : List Char} (h : child parent name = .ok l) :
    l = parent ++ [String.ofList name] ∧ byteLength name ≤ nameLimit := by
  unfold child at h
  split at h
  · exact absurd h (by simp)
  · rename_i hlength
    exact ⟨(Except.ok.inj h).symm, Nat.not_lt.mp hlength⟩

/-- **Bytes written to a path stand at its destination,** where no directory stood. -/
theorem write_ok {d d' : Disk} {p : Path} {bytes : List UInt8} {now : Instant}
    (h : d.write p bytes now = .ok d') :
    Altered d (p.destination d.start) (some (.file bytes now)) d' ∧
    d.seen (p.destination d.start) ≠ some folder := by
  obtain ⟨t, name, ht, hname, h⟩ := named_ok h
  obtain ⟨hdest, hdir, -⟩ := target_ok ht hname
  split at h
  · exact absurd h (by simp)
  · obtain ⟨l, hchild, h⟩ := bind_ok h
    obtain ⟨rfl, -⟩ := child_ok hchild
    rw [← hdest]
    split at h
    · exact absurd h (by simp)
    · rename_i old t hitem
      obtain rfl := Except.ok.inj h
      refine ⟨⟨rfl, seen_insert d (by simp) _⟩, ?_⟩
      rw [item?_file_iff.mp hitem]
      simp [folder]
    · rename_i hitem
      obtain rfl := Except.ok.inj h
      refine ⟨altered_place hdir _ (.file bytes now) now, ?_⟩
      rw [seen, hitem]
      simp

/-- What is written to a path has a plain name. -/
theorem plainName_of_write {d d' : Disk} {p : Path} {bytes : List UInt8} {now : Instant}
    (h : d.write p bytes now = .ok d') :
    ∃ parent name, p.destination d.start = parent ++ [name] ∧ PlainName name := by
  obtain ⟨target, name, htarget, hname, -⟩ := named_ok h
  obtain ⟨hdestination, -, hplain⟩ := target_ok htarget hname
  exact ⟨target.parent, _, hdestination.symm, hplain⟩

/-- **A file installed at a path stands at its destination,** where no directory stood. -/
theorem install_ok {d d' : Disk} {p : Path} {bytes : List UInt8} {now : Instant}
    (h : d.install p bytes now = .ok d') :
    Altered d (p.destination d.start) (some (.file bytes now)) d' ∧
    d.seen (p.destination d.start) ≠ some folder := by
  obtain ⟨t, name, ht, hname, h⟩ := named_ok h
  obtain ⟨hdest, hdir, -⟩ := target_ok ht hname
  obtain ⟨l, hchild, h⟩ := bind_ok h
  obtain ⟨rfl, -⟩ := child_ok hchild
  rw [← hdest]
  split at h
  · exact absurd h (by simp)
  · split at h
    · exact absurd h (by simp)
    · rename_i hitem
      obtain rfl := Except.ok.inj h
      refine ⟨altered_place hdir _ (.file bytes now) now, fun hseen => ?_⟩
      obtain ⟨item, hitem', hbare⟩ := Option.map_eq_some_iff.mp hseen
      cases item with
      | file bytes t => exact absurd hbare (by simp [Item.bare, folder])
      | directory t => exact hitem t hitem'

/-- **What is removed at a path is the file at its destination.** -/
theorem remove_ok {d d' : Disk} {p : Path} {now : Instant} (h : d.remove p now = .ok d') :
    Altered d (p.destination d.start) none d' ∧
    ∃ bytes t, d.seen (p.destination d.start) = some (.file bytes t) := by
  obtain ⟨t, name, ht, hname, h⟩ := named_ok h
  obtain ⟨hdest, hdir, -⟩ := target_ok ht hname
  obtain ⟨l, hchild, h⟩ := bind_ok h
  obtain ⟨rfl, -⟩ := child_ok hchild
  rw [← hdest]
  split at h
  · exact absurd h (by simp)
  · exact absurd h (by simp)
  · rename_i bytes t hitem
    split at h
    · exact absurd h (by simp)
    · obtain rfl := Except.ok.inj h
      exact ⟨altered_takeAway hdir _ now, bytes, t, item?_file_iff.mp hitem⟩

/-! ## Directories -/

/-- **A directory made at a path stands at its destination,** where nothing stood, and has a plain
name. -/
theorem makeDirectory_ok {d d' : Disk} {p : Path} {now : Instant}
    (h : d.makeDirectory p now = .ok d') :
    Altered d (p.destination d.start) (some folder) d' ∧ d.seen (p.destination d.start) = none ∧
      ∃ parent name, p.destination d.start = parent ++ [name] ∧ PlainName name := by
  obtain ⟨t, name, ht, hname, h⟩ := named_ok h
  obtain ⟨hdest, hdir, hplain⟩ := target_ok ht hname
  obtain ⟨l, hchild, h⟩ := bind_ok h
  obtain ⟨rfl, -⟩ := child_ok hchild
  rw [← hdest]
  split at h
  · exact absurd h (by simp)
  · rename_i hitem
    obtain rfl := Except.ok.inj h
    refine ⟨altered_place hdir _ (.directory now) now, ?_, t.parent, String.ofList name, rfl,
      hplain⟩
    rw [isSome_item?] at hitem
    simpa using hitem

/-- **One disk is another with some more directories,** which have plain names and stand at places
of a kind. -/
structure Grown (place : Location → Prop) (d d' : Disk) : Prop where
  start : d'.start = d.start
  kept : ∀ l item, d.seen l = some item → d'.seen l = some item
  new : ∀ l item, d'.seen l = some item →
    d.seen l = some item ∨ item = folder ∧ place l ∧
    ∃ parent name, l = parent ++ [name] ∧ PlainName name

theorem Grown.refl (place : Location → Prop) (d : Disk) : Grown place d d :=
  ⟨rfl, fun _ _ h => h, fun _ _ h => .inl h⟩

theorem Grown.trans {place : Location → Prop} {d d' d'' : Disk} (h : Grown place d d')
    (h' : Grown place d' d'') : Grown place d d'' := by
  refine ⟨h'.start.trans h.start, fun l item hl => h'.kept l item (h.kept l item hl), ?_⟩
  intro l item hl
  rcases h'.new l item hl with hl | hl
  · exact h.new l item hl
  · exact .inr hl

/-- A file is where it was. -/
theorem Grown.file_iff {place : Location → Prop} {d d' : Disk} (h : Grown place d d') {l : Location}
    {bytes : List UInt8} {t : Instant} :
    d'.seen l = some (.file bytes t) ↔ d.seen l = some (.file bytes t) := by
  refine ⟨fun hl => ?_, h.kept l _⟩
  rcases h.new l _ hl with hl | ⟨hfolder, -⟩
  · exact hl
  · exact absurd hfolder (by simp [folder])

theorem grown_of_makeDirectory {place : Location → Prop} {d d' : Disk} {p : Path} {now : Instant}
    (hp : place (p.destination d.start)) (h : d.makeDirectory p now = .ok d') :
    Grown place d d' := by
  obtain ⟨haltered, hnone, hplain⟩ := makeDirectory_ok h
  refine ⟨haltered.start, ?_, ?_⟩
  · intro l item hl
    rw [haltered.seen_of_ne, hl]
    rintro rfl
    rw [hnone] at hl
    exact absurd hl (by simp)
  · intro l item hl
    by_cases hdest : l = p.destination d.start
    · rw [hdest, haltered.seen_self, Option.some.injEq] at hl
      exact .inr ⟨hl.symm, hdest ▸ hp, hdest ▸ hplain⟩
    · rw [haltered.seen_of_ne hdest] at hl
      exact .inl hl

/-- Whatever the way in which each directory is made, as long as it is made by the rules of the
disk. -/
theorem makeAllBy_grown {place : Location → Prop} {make : Disk → Path → Except Fault Disk}
    {now : Instant} (hmake : ∀ d p d', make d p = .ok d' → d.makeDirectory p now = .ok d')
    {paths : List Path} {d : Disk} (h : ∀ p ∈ paths, place (p.destination d.start)) :
    Grown place d (makeAllBy make paths d).2 := by
  induction paths with
  | nil => exact Grown.refl place d
  | cons p parents ih =>
    have hp := h p List.mem_cons_self
    have hparents := ih fun q hq => h q (List.mem_cons_of_mem _ hq)
    rw [makeAllBy]
    split
    · exact Grown.refl place d
    · split
      · rename_i d' hmade
        exact grown_of_makeDirectory hp (hmake _ _ _ hmade)
      · -- The parents are made first, and then the directory itself.
        split
        · rename_i fault d' hmade
          rw [hmade] at hparents
          exact hparents
        · rename_i d' hmade
          rw [hmade] at hparents
          split
          · rename_i d'' hmade'
            exact hparents.trans (grown_of_makeDirectory (hparents.start ▸ hp) (hmake _ _ _ hmade'))
          · exact hparents
      · exact Grown.refl place d

theorem makeAll_grown {place : Location → Prop} {now : Instant} {paths : List Path} {d : Disk}
    (h : ∀ p ∈ paths, place (p.destination d.start)) : Grown place d (makeAll now paths d).2 := by
  rw [← makeAllBy_makeDirectory]
  exact makeAllBy_grown (fun _ _ _ hmade => hmade) h

/-- **The directories made for a path stand on its way.** -/
theorem makeDirectories_grown (d : Disk) (p : Path) (now : Instant) :
    Grown (· ∈ waypoints d.start p) d (d.makeDirectories p now).2 :=
  makeAll_grown fun _ hq => Path.destination_of_mem_ancestors hq

end AltRender.Disk

import AltRender.Proofs.Disk.View

/-!
# `Proofs/Disk/Asking` — what is found on a disk, and found again

A look at a path gives what is at its destination, if the walk to it comes through (`look_ok`). So
what was found once is found again on another disk as long as all directories are still directories
and the same is seen at the destination (`find_mono`); what is changed elsewhere does not matter. In
this form it is used for all that happens between two looks, be it a file that was written
(`look_of_install`) or one that was removed.

Removing a file finds the same place as looking at it does (`remove_of_find_join`,
`find_of_remove`), and a directory that is found is listed with just what is seen in it
(`names_ok`, `mem_of_names`).
-/

set_option autoImplicit false

namespace AltRender.Disk

open AltRender.Text

/-! ## Asking -/

theorem look_ok {d : Disk} {p : Path} {item : Item} (h : d.look p = .ok item) :
    d.find p = .ok (p.destination d.start) ∧ d.item? (p.destination d.start) = some item := by
  obtain ⟨l, hfind, h⟩ := bind_ok h
  obtain rfl := find_ok hfind
  split at h
  · rename_i item' hitem
    obtain rfl := Except.ok.inj h
    exact ⟨hfind, hitem⟩
  · exact absurd h (by simp)

theorem look_of_find {d : Disk} {p : Path} {l : Location} {item : Item} (hfind : d.find p = .ok l)
    (hitem : d.item? l = some item) : d.look p = .ok item := by
  simp only [look, hfind, hitem, bind, Except.bind]

/-- What is read at a path is the file at its destination. -/
theorem read_ok {d : Disk} {p : Path} {bytes : List UInt8} (h : d.read p = .ok bytes) :
    ∃ t, d.look p = .ok (.file bytes t) ∧
      d.seen (p.destination d.start) = some (.file bytes t) := by
  obtain ⟨item, hlook, h⟩ := bind_ok h
  cases item with
  | directory t => exact absurd h (by simp)
  | file bytes' t =>
    obtain rfl := Except.ok.inj h
    exact ⟨t, hlook, item?_file_iff.mp (look_ok hlook).2⟩

theorem read_of_look {d : Disk} {p : Path} {bytes : List UInt8} {t : Instant}
    (h : d.look p = .ok (.file bytes t)) : d.read p = .ok bytes := by
  simp only [read, h, bind, Except.bind]

/-! ## Finding something again -/

theorem route_congr {d d' : Disk} (h : d'.start = d.start) (p : Path) : d'.route p = d.route p := by
  unfold route
  rw [h]

theorem step_mono {d d' : Disk} {l m : Location} {piece : List Char}
    (hl : d'.isDirectoryAt l = true) (h : d.step l piece = .ok m) (hm : (d'.seen m).isSome = true) :
    d'.step l piece = .ok m := by
  unfold step at h ⊢
  split at h
  · exact absurd h (by simp)
  · rw [hl, Bool.not_true, if_neg (by decide)]
    split at h
    · rename_i hhere
      rw [if_pos hhere, h]
    · rename_i hhere
      rw [if_neg hhere]
      split at h
      · rename_i hup
        rw [if_pos hup, h]
      · rename_i hup
        rw [if_neg hup]
        split at h
        · exact absurd h (by simp)
        · rename_i hlength
          split at h
          · obtain rfl := Except.ok.inj h
            rw [if_neg hlength, isSome_item?, if_pos hm]
          · exact absurd h (by simp)

theorem isDirectoryAt_of_step {d : Disk} {l m : Location} {piece : List Char}
    (h : d.step l piece = .ok m) : d.isDirectoryAt l = true := by
  cases hdir : d.isDirectoryAt l with
  | true => rfl
  | false =>
    rw [step, hdir] at h
    exact absurd h (by simp)

/-- A walk that succeeded succeeds again, on a disk with the same directories where its end is still
there. -/
theorem walk_mono {d d' : Disk} (hdir : ∀ l, d.isDirectoryAt l = true → d'.isDirectoryAt l = true)
    {pieces : List (List Char)} {l r : Location} (h : d.walk l pieces = .ok r)
    (hr : (d'.seen r).isSome = true) : d'.walk l pieces = .ok r := by
  induction pieces generalizing l with
  | nil => exact h
  | cons piece rest ih =>
    obtain ⟨m, hstep, hwalk⟩ := walk_cons h
    have hm : (d'.seen m).isSome = true := by
      cases rest with
      | nil =>
        obtain rfl : m = r := Except.ok.inj hwalk
        exact hr
      | cons next rest =>
        obtain ⟨n, hnext, -⟩ := walk_cons hwalk
        rw [isDirectoryAt_iff.mp (hdir m (isDirectoryAt_of_step hnext))]
        rfl
    unfold walk
    rw [List.foldlM_cons, step_mono (hdir l (isDirectoryAt_of_step hstep)) hstep hm]
    exact ih hwalk

theorem find_mono {d d' : Disk} (hstart : d'.start = d.start)
    (hdir : ∀ l, d.isDirectoryAt l = true → d'.isDirectoryAt l = true) {p : Path} {l : Location}
    (h : d.find p = .ok l) (hl : (d'.seen l).isSome = true) : d'.find p = .ok l := by
  obtain ⟨r, hr, hwalk, hends⟩ := find_cases h
  have hslash : (r.endsInSlash && !d'.isDirectoryAt l) = false := by
    cases hslash : r.endsInSlash with
    | false => rfl
    | true => rw [hdir l (hends hslash)]; rfl
  simp only [find, route_congr hstart, hr, walk_mono hdir hwalk hl, hslash, bind, Except.bind,
    Bool.false_eq_true, if_false]

/-- **A target stays one while directories stay.** -/
theorem target_mono {d d' : Disk} {p : Path} (hstart : d'.start = d.start)
    (hdir : ∀ l, d.isDirectoryAt l = true → d'.isDirectoryAt l = true) {t : Target}
    {name : List Char} (ht : d.target p = .ok t) (hname : t.name = some name) :
    d'.target p = .ok t := by
  obtain ⟨r, hr, hpieces, hdots, hwalk, hparent, hends⟩ := target_cases ht hname
  have hparent' := hdir _ hparent
  have hwalk' := walk_mono hdir hwalk (by rw [isDirectoryAt_iff.mp hparent']; rfl)
  have hlast : r.pieces.getLast? = some name := by
    rw [hpieces, List.getLast?_concat]
  obtain ⟨parent, tname, ends⟩ := t
  simp only at hname hends hwalk' hparent' ⊢
  subst hname hends
  simp only [target, route_congr hstart, hr, hlast, hwalk', hparent', hdots, bind, Except.bind,
    Bool.not_true, Bool.false_eq_true, if_false]

/-- The parent of what is put at a path is found on the way to it. -/
theorem find_of_target {d d' : Disk} {p : Path} {t : Target} {name : List Char}
    (ht : d.target p = .ok t) (hname : t.name = some name) (hends : t.endsInSlash = false)
    (hlength : byteLength name ≤ nameLimit) (hstart : d'.start = d.start)
    (hdir : ∀ l, d.isDirectoryAt l = true → d'.isDirectoryAt l = true)
    (hl : (d'.seen (p.destination d.start)).isSome = true) :
    d'.find p = .ok (p.destination d.start) := by
  obtain ⟨r, hr, hpieces, hdots, hwalk, hparent, hslash⟩ := target_cases ht hname
  obtain ⟨hdest, -, -⟩ := target_ok ht hname
  have hparent' := hdir _ hparent
  have hwalk' := walk_mono hdir hwalk (by rw [isDirectoryAt_iff.mp hparent']; rfl)
  have hstep : d'.step t.parent name = .ok (p.destination d.start) := by
    simp only [isDots, Bool.or_eq_false_iff, beq_eq_false_iff_ne] at hdots
    rw [← hdest] at hl ⊢
    simp [step, hparent', hdots.1, hdots.2, Nat.not_lt.mpr hlength, isSome_item?, hl]
  have hall : d'.walk r.origin r.pieces = .ok (p.destination d.start) := by
    rw [hpieces, walk, List.foldlM_append]
    rw [walk] at hwalk'
    simp only [hwalk', bind, Except.bind, List.foldlM_cons, List.foldlM_nil, hstep, pure,
      Except.pure]
  rw [hends] at hslash
  simp only [find, route_congr hstart, hr, hall, ← hslash, bind, Except.bind, Bool.false_and,
    Bool.false_eq_true, if_false]

theorem Altered.isDirectoryAt_mono {d d' : Disk} {l : Location} {item : Option Item}
    (h : Altered d l item d') (hl : d.seen l ≠ some folder) {k : Location}
    (hk : d.isDirectoryAt k = true) : d'.isDirectoryAt k = true := by
  rw [isDirectoryAt_congr, hk]
  refine h.seen_of_ne ?_
  rintro rfl
  exact hl (isDirectoryAt_iff.mp hk)

/-- **What was installed at a path is found and read there.** -/
theorem look_of_install {d d' : Disk} {p : Path} {bytes : List UInt8} {now : Instant}
    (h : d.install p bytes now = .ok d') : d'.look p = .ok (.file bytes now) := by
  obtain ⟨haltered, hfolder⟩ := install_ok h
  obtain ⟨t, name, ht, hname, h⟩ := named_ok h
  obtain ⟨l, hchild, h⟩ := bind_ok h
  split at h
  · exact absurd h (by simp)
  · rename_i hends
    have hself := haltered.seen_self
    have hfind := find_of_target ht hname (by simpa using hends) (child_ok hchild).2 haltered.start
      (fun _ hk => haltered.isDirectoryAt_mono hfolder hk) (by rw [hself]; rfl)
    exact look_of_find hfind (item?_file_iff.mpr hself)

/-- **A file that is found below a directory can be removed.** -/
theorem remove_of_find_join {d : Disk} {p : Path} {name : String} (h : PlainName name)
    {l : Location} (hfind : d.find (p.join ⟨name⟩) = .ok l) {bytes : List UInt8} {t : Instant}
    (hl : d.seen l = some (.file bytes t)) (now : Instant) :
    ∃ d', d.remove (p.join ⟨name⟩) now = .ok d' := by
  obtain ⟨parent, htarget, hchild⟩ := target_of_find_join h hfind
  refine ⟨d.takeAway l now, ?_⟩
  simp only [remove, htarget, hchild, item?_file_iff.mpr hl, bind, Except.bind, Bool.false_eq_true,
    if_false]

/-- A file that can be removed at a path is found there. -/
theorem find_of_remove {d d' : Disk} {p : Path} {now : Instant} (h : d.remove p now = .ok d') :
    d.find p = .ok (p.destination d.start) := by
  obtain ⟨-, bytes, t, hfile⟩ := remove_ok h
  obtain ⟨target, name, htarget, hname, h⟩ := named_ok h
  obtain ⟨l, hchild, h⟩ := bind_ok h
  split at h
  · exact absurd h (by simp)
  · exact absurd h (by simp)
  · split at h
    · exact absurd h (by simp)
    · rename_i hslash
      exact find_of_target htarget hname (by simpa using hslash) (child_ok hchild).2 rfl
        (fun _ hdir => hdir)
        (by rw [hfile]; rfl)

/-! ## Listing -/

section Listing

variable {d : Disk} {p : Path} {name : String}

/-- What is listed in a directory is in it. -/
theorem names_ok {names : List String} (h : d.names p = .ok names) :
    ∀ name ∈ names, (d.seen (p.destination d.start ++ [name])).isSome = true := by
  obtain ⟨l, hfind, h⟩ := bind_ok h
  obtain rfl := find_ok hfind
  split at h
  · obtain rfl := Except.ok.inj h
    intro name hname
    obtain ⟨⟨k, item⟩, hmem, hkey⟩ := List.mem_filterMap.mp hname
    split at hkey
    · rename_i hdrop
      obtain ⟨front, rfl⟩ := List.getLast?_eq_some_iff.mp hkey
      rw [List.dropLast_concat] at hdrop
      rw [← hdrop, seen_of_ne_nil d (by simp), Option.isSome_map]
      have hkeys : front ++ [name] ∈ d.items.keys := List.mem_map.mpr ⟨_, hmem, rfl⟩
      obtain ⟨v, hv⟩ := (Keyed.mem_keys_iff_get? _ _).mp hkeys
      rw [hv]
      rfl
    · exact absurd hkey (by simp)
  · exact absurd h (by simp)

/-- A directory that is found is listed, with all that is in it. -/
theorem exists_names (hfind : d.find p = .ok (p.destination d.start))
    (hdir : d.isDirectoryAt (p.destination d.start) = true)
    (h : (d.seen (p.destination d.start ++ [name])).isSome = true) :
    ∃ names, d.names p = .ok names ∧ name ∈ names := by
  refine ⟨d.namesAt (p.destination d.start),
    by simp only [names, hfind, hdir, bind, Except.bind, if_true], ?_⟩
  rw [seen_of_ne_nil d (by simp), Option.isSome_map] at h
  obtain ⟨item, hitem⟩ := Option.isSome_iff_exists.mp h
  exact List.mem_filterMap.mpr ⟨_, Keyed.mem_of_get? hitem, by simp⟩

theorem ne_nil_of_names {names : List String} (h : d.names p = .ok names) : p.text.toList ≠ [] := by
  intro hnil
  obtain ⟨l, hfind, -⟩ := bind_ok h
  obtain ⟨r, hroute, -⟩ := find_cases hfind
  have hempty : p.text = "" := String.toList_eq_nil_iff.mp hnil
  rw [route, hempty] at hroute
  exact absurd hroute (by simp)

theorem mem_of_names {names : List String} (h : d.names p = .ok names)
    (hname : (d.seen (p.destination d.start ++ [name])).isSome = true) : name ∈ names := by
  obtain ⟨l, hfind, hlisted⟩ := bind_ok h
  obtain rfl := find_ok hfind
  split at hlisted
  · rename_i hdirectory
    obtain ⟨names', hnames', hmem⟩ := exists_names hfind hdirectory hname
    exact Except.ok.inj (h.symm.trans hnames') ▸ hmem
  · exact absurd hlisted (by simp)

end Listing

end AltRender.Disk

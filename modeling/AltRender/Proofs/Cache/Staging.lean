import AltRender.Cache.Staging
import AltRender.Proofs.Cache.Change

/-!
# `Proofs/Cache/Staging` — what a write changes, whichever way it goes

A write that fails may have made directories and has done nothing else, wherever it failed: the
temporary file was created where nothing stood, so taking it away leaves what was there before
(`Writer.write_error`). A write by way of a temporary file of which nothing is refused comes to the
same as one at once (`writeStaged_none`).

Every stage gets one lemma about what is seen on the disk, and the stages are put together from
these. The name of the temporary file is chosen so that nothing stands there (`create_ok`); filling
it changes that place only, however much of the bytes is taken (`fill_altered`); and taking away
what was put where nothing stood leaves what there was (`Altered.seen_undone`). Whether the last
stage can succeed does not depend on the temporary file, since a file more is no directory more
(`fileSlot_of_altered`). So a write that fails in the rename fails for the reason for which it would
have failed without a temporary file.
-/

set_option autoImplicit false

namespace AltRender

open AltRender.Disk AltRender.Text

namespace Disk

variable {d d' : Disk} {p : Path} {now : Instant}

/-! ## Slots -/

/-- A path at whose destination a file can stand: it ends in a name that is not too long, in a
directory. -/
structure Slot (d : Disk) (p : Path) (t : Target) (name : List Char) : Prop where
  target : d.target p = .ok t
  named : t.name = some name
  ends : t.endsInSlash = false
  place : child t.parent name = .ok (p.destination d.start)

theorem Slot.mono {t : Target} {name : List Char} (h : d.Slot p t name)
    (hstart : d'.start = d.start)
    (hdir : ∀ l, d.isDirectoryAt l = true → d'.isDirectoryAt l = true) :
    d'.Slot p t name :=
  ⟨target_mono hstart hdir h.target h.named, h.named, h.ends, hstart ▸ h.place⟩

/-- **A file created stands where nothing stood.** -/
theorem create_ok (h : d.create p now = .ok d') :
    Altered d (p.destination d.start) (some (.file [] now)) d' ∧
    d.seen (p.destination d.start) = none ∧
      ∃ t name, d.Slot p t name := by
  obtain ⟨t, name, ht, hname, h⟩ := named_ok h
  obtain ⟨hdest, hdir, -⟩ := target_ok ht hname
  split at h
  · exact absurd h (by simp)
  · rename_i hends
    obtain ⟨l, hchild, h⟩ := bind_ok h
    obtain ⟨rfl, -⟩ := child_ok hchild
    split at h
    · exact absurd h (by simp)
    · rename_i hitem
      obtain rfl := Except.ok.inj h
      rw [isSome_item?] at hitem
      rw [hdest] at hchild
      have haltered := altered_place hdir (String.ofList name) (.file [] now) now
      rw [hdest] at haltered hitem ⊢
      exact ⟨haltered, by simpa using hitem, t, name, ht, hname, by simpa using hends, hchild⟩

section Slot

variable {t : Target} {name : List Char} {old : List UInt8} {written : Instant}

/-- **A file in a slot can be removed.** -/
theorem Slot.remove (h : d.Slot p t name)
    (hfile : d.seen (p.destination d.start) = some (.file old written)) (now : Instant) :
    ∃ d', d.remove p now = .ok d' := by
  have hitem := item?_file_iff.mpr hfile
  have hplace := h.place
  generalize p.destination d.start = l at hitem hplace
  refine ⟨d.takeAway l now, ?_⟩
  simp only [Disk.remove, h.target, h.named, hplace, h.ends, hitem, bind, Except.bind,
    Bool.false_eq_true, if_false]

/-- **A file in a slot can be written.** -/
theorem Slot.write (h : d.Slot p t name)
    (hfile : d.seen (p.destination d.start) = some (.file old written)) (bytes : List UInt8)
    (now : Instant) : ∃ d', d.write p bytes now = .ok d' := by
  have hitem := item?_file_iff.mpr hfile
  have hplace := h.place
  generalize p.destination d.start = l at hitem hplace
  refine ⟨{ d with items := d.items.insert l (.file bytes now) }, ?_⟩
  simp only [Disk.write, h.target, h.named, hplace, h.ends, hitem, bind, Except.bind,
    Bool.false_eq_true, if_false]

end Slot

/-! ## Disks that look the same -/

/-- A disk that looks like a grown one is grown as well. -/
theorem Grown.congr {place : Location → Prop} {d₁ : Disk} (h : Grown place d d₁)
    (hstart : d'.start = d₁.start) (hseen : d'.seen = d₁.seen) : Grown place d d' := by
  refine ⟨hstart.trans h.start, ?_, ?_⟩
  · intro l item hl
    rw [hseen]
    exact h.kept l item hl
  · intro l item hl
    rw [hseen] at hl
    exact h.new l item hl

/-- **What is taken away where nothing stood before leaves what there was.** -/
theorem Altered.seen_undone {d₁ d₂ : Disk} {l : Location} {item : Option Item}
    (h : Altered d l item d₁) (h' : Altered d₁ l none d₂) (hnone : d.seen l = none) :
    d₂.seen = d.seen := by
  funext k
  by_cases hk : k = l
  · rw [hk, h'.seen_self, hnone]
  · rw [h'.seen_of_ne hk, h.seen_of_ne hk]

theorem Altered.again {d₁ d₂ : Disk} {l : Location} {item item' : Option Item}
    (h : Altered d l item d₁) (h' : Altered d₁ l item' d₂) : Altered d l item' d₂ := by
  refine ⟨h'.start.trans h.start, fun k => ?_⟩
  rw [h'.seen, h.seen]
  by_cases hk : k = l
  · rw [if_pos hk, if_pos hk]
  · rw [if_neg hk, if_neg hk, if_neg hk]

/-! ## Moving a file -/

/-- To install a file is to put it where a file can be put. -/
theorem install_eq (d : Disk) (p : Path) (bytes : List UInt8) (now : Instant) :
    d.install p bytes now = (d.fileSlot p).map fun l => d.place l (.file bytes now) now := by
  unfold install fileSlot
  cases d.target p with
  | error fault => rfl
  | ok t =>
    cases hname : t.name with
    | none => simp only [hname, bind, Except.bind, Except.map]
    | some name =>
      cases hchild : child t.parent name with
      | error fault => simp only [hname, hchild, bind, Except.bind, Except.map]
      | ok l =>
        simp only [hname, hchild, bind, Except.bind]
        -- Both read the slot in the same order: the name, the slash behind it, and then whether a
        -- directory is there.
        cases t.endsInSlash with
        | true => rfl
        | false =>
          simp only [Bool.false_eq_true, if_false]
          split
          · rename_i changed hitem
            have hdir : d.isDirectoryAt l = true := by rw [isDirectoryAt, hitem]
            rw [hdir, if_pos rfl, Except.map]
          · rename_i hitem
            have hdir : ¬ d.isDirectoryAt l = true := by
              intro hdir
              obtain ⟨changed, hchanged⟩ := item?_of_isDirectoryAt hdir
              exact hitem changed hchanged
            rw [if_neg hdir, Except.map]

/-- **What there is to a slot for a file:** a name in a directory, which no directory has. -/
theorem fileSlot_cases {l : Location} (h : d.fileSlot p = .ok l) :
    ∃ t name, d.target p = .ok t ∧ t.name = some name ∧ child t.parent name = .ok l ∧
      t.endsInSlash = false ∧
      d.isDirectoryAt l = false := by
  obtain ⟨t, name, ht, hname, h⟩ := named_ok h
  obtain ⟨l', hchild, h⟩ := bind_ok h
  split at h
  · exact absurd h (by simp)
  · rename_i hends
    split at h
    · exact absurd h (by simp)
    · rename_i hdir
      obtain rfl := Except.ok.inj h
      exact ⟨t, name, ht, hname, hchild, by simpa using hends, by simpa using hdir⟩

theorem fileSlot_ok {l : Location} (h : d.fileSlot p = .ok l) :
    l = p.destination d.start ∧
    ∃ parent name, l = parent ++ [name] ∧ d.isDirectoryAt parent = true := by
  obtain ⟨t, name, ht, hname, hchild, -, -⟩ := fileSlot_cases h
  obtain ⟨hdest, hdir, -⟩ := target_ok ht hname
  obtain ⟨rfl, -⟩ := child_ok hchild
  exact ⟨hdest, t.parent, String.ofList name, rfl, hdir⟩

/-- **What is where a file can be put is found there.** -/
theorem find_of_fileSlot {l : Location} (h : d.fileSlot p = .ok l) (hl : (d.seen l).isSome = true) :
    d.find p = .ok l := by
  obtain ⟨rfl, -⟩ := fileSlot_ok h
  obtain ⟨t, name, ht, hname, hchild, hends, -⟩ := fileSlot_cases h
  exact find_of_target ht hname hends (child_ok hchild).2 rfl (fun _ hk => hk) hl

/-- A file more makes no directory. -/
theorem Altered.isDirectoryAt_eq {l : Location} {bytes : List UInt8} {written : Instant}
    (h : Altered d l (some (.file bytes written)) d') (hnone : d.seen l = none) (k : Location) :
    d'.isDirectoryAt k = d.isDirectoryAt k := by
  rw [Bool.eq_iff_iff, isDirectoryAt_iff, isDirectoryAt_iff, h.seen]
  by_cases hk : k = l
  · rw [if_pos hk, hk, hnone]
    simp [folder]
  · rw [if_neg hk]

/-- Where a file can be put does not depend on another that was created. -/
theorem fileSlot_of_altered {l : Location} {bytes : List UInt8} {written : Instant}
    (h : Altered d l (some (.file bytes written)) d') (hnone : d.seen l = none) {t : Target}
    {name : List Char} (ht : d.target p = .ok t) (hname : t.name = some name) :
    d'.fileSlot p = d.fileSlot p := by
  have hdir := h.isDirectoryAt_eq hnone
  have ht' := target_mono h.start (fun k hk => (hdir k).trans hk) ht hname
  simp only [fileSlot, ht, ht', hname, hdir, bind, Except.bind]

/-- **A file that was created and filled is moved to where it can be put,** as if it had been
installed there. -/
theorem rename_of_altered {source : Path} {bytes : List UInt8} {t' : Target} {name' : List Char}
    (hslot : d.Slot source t' name') (hnone : d.seen (source.destination d.start) = none)
    (h : Altered d (source.destination d.start) (some (.file bytes now)) d') {t : Target}
    {name : List Char} (ht : d.target p = .ok t) (hname : t.name = some name) :
    match d.install p bytes now with
    | .error fault => d'.rename source p now = .error fault
    | .ok d₁ =>
      ∃ d₂, d'.rename source p now = .ok d₂ ∧ d₂.start = d₁.start ∧ d₂.seen = d₁.seen := by
  have hslot' := hslot.mono h.start fun k hk => (h.isDirectoryAt_eq hnone k).trans hk
  have hself := h.seen_self
  have hfind : d'.find source = .ok (source.destination d.start) :=
    find_of_target hslot.target hslot.named hslot.ends (child_ok hslot.place).2 h.start
      (fun k hk => (h.isDirectoryAt_eq hnone k).trans hk) (by rw [hself]; rfl)
  have hlook := look_of_find hfind (item?_file_iff.mpr hself)
  have hsame := fileSlot_of_altered h hnone ht hname
  rw [install_eq]
  cases hput : d.fileSlot p with
  | error fault =>
    rw [hput] at hsame
    simp only [Except.map, rename, hlook, hfind, hsame, bind, Except.bind]
  | ok l' =>
    rw [hput] at hsame
    simp only [Except.map, rename, hlook, hfind, hsame, bind, Except.bind]
    refine ⟨_, rfl, ?_⟩
    obtain ⟨-, parent, last, rfl, hparent⟩ := fileSlot_ok hput
    obtain ⟨hdest, hparent', -⟩ := target_ok hslot.target hslot.named
    rw [← hdest] at h hnone ⊢
    -- The source is taken away, which leaves the disk as it was, and the file is put where it would
    -- be installed.
    have htaken :=
      altered_takeAway ((h.isDirectoryAt_eq hnone _).trans hparent') (String.ofList name') now
    have hbefore := h.seen_undone htaken hnone
    have hplaced := altered_place hparent last (.file bytes now) now
    have hdir : (d'.takeAway (t'.parent ++ [String.ofList name']) now).isDirectoryAt parent =
      true := by
      rw [isDirectoryAt_congr (congrFun hbefore parent), hparent]
    have hplaced' := altered_place hdir last (.file bytes now) now
    refine ⟨?_, ?_⟩
    · rw [hplaced'.start, hplaced.start, htaken.start, h.start]
    · funext k
      rw [hplaced'.seen, hplaced.seen, hbefore]

end Disk

namespace Cache

variable {d d' : Disk} {p : Path} {now : Instant}

/-! ## The temporary file -/

theorem unlessRefused_ok {α : Type} {refusal : Option Fault} {done : Except Fault α} {a : α}
    (h : unlessRefused refusal done = .ok a) : done = .ok a := by
  cases refusal with
  | none => exact h
  | some fault => exact absurd h (by simp [unlessRefused])

/-- **Filling a file changes that file and nothing else,** however much of the bytes is taken. -/
theorem fill_altered {t : Target} {name : List Char} (hslot : d.Slot p t name) {old : List UInt8}
    {written : Instant} (hfile : d.seen (p.destination d.start) = some (.file old written))
    (r : Refusals) (bytes : List UInt8) (now : Instant) :
    ∃ filled, Altered d (p.destination d.start) (some (.file filled now)) (fill r d p bytes now).2 ∧
      ((fill r d p bytes now).1 = .ok () → filled = bytes) := by
  unfold fill
  cases r.contents with
  | none =>
    obtain ⟨d', hwrite⟩ := hslot.write hfile bytes now
    simp only [hwrite]
    exact ⟨bytes, (write_ok hwrite).1, fun _ => rfl⟩
  | some refusal =>
    obtain ⟨n, fault⟩ := refusal
    obtain ⟨d', hwrite⟩ := hslot.write hfile (bytes.take n) now
    simp only [hwrite]
    exact ⟨bytes.take n, (write_ok hwrite).1, fun h => absurd h (by simp)⟩

/-- **A temporary file leaves no trace** once it is removed. -/
theorem discard_seen {d₁ : Disk} {t : Target} {name : List Char} (hslot : d.Slot p t name)
    (hnone : d.seen (p.destination d.start) = none) {bytes : List UInt8} {written : Instant}
    (haltered : Altered d (p.destination d.start) (some (.file bytes written)) d₁) (now : Instant) :
    (removeFile d₁ p now).2.start = d.start ∧ (removeFile d₁ p now).2.seen = d.seen := by
  have hslot₁ : d₁.Slot p t name :=
    hslot.mono haltered.start fun _ hk => haltered.isDirectoryAt_mono (by rw [hnone]; simp) hk
  have hself := haltered.seen_self
  rw [← haltered.start] at hself
  obtain ⟨d₂, hremove⟩ := hslot₁.remove hself now
  obtain ⟨haltered₂, -⟩ := remove_ok hremove
  rw [haltered.start] at haltered₂
  rw [removeFile, hremove]
  exact ⟨haltered₂.start.trans haltered.start, haltered.seen_undone haltered₂ hnone⟩

/-- A temporary file that is filled differs from none in one place only. -/
theorem filled_altered {d₁ : Disk} (h : d.create p now = .ok d₁) (r : Refusals)
    (bytes : List UInt8) :
    ∃ t name filled, d.Slot p t name ∧ d.seen (p.destination d.start) = none ∧
      Altered d (p.destination d.start) (some (.file filled now)) (fill r d₁ p bytes now).2 ∧
      ((fill r d₁ p bytes now).1 = .ok () → filled = bytes) := by
  obtain ⟨haltered, hnone, t, name, hslot⟩ := create_ok h
  have hslot₁ :=
    hslot.mono haltered.start fun _ hk => haltered.isDirectoryAt_mono (by rw [hnone]; simp) hk
  have hself := haltered.seen_self
  rw [← haltered.start] at hself
  obtain ⟨filled, haltered₁, hfilled⟩ := fill_altered hslot₁ hself r bytes now
  rw [haltered.start] at haltered₁
  exact ⟨t, name, filled, hslot, hnone, haltered.again haltered₁, hfilled⟩

/-! ## Failed writes -/

/-- **A file that could not be put into place leaves the disk as it looked,** no temporary file
left. -/
theorem installStaged_error {r : Refusals} {temporary : Path} {bytes : List UInt8} {fault : Fault}
    (h : installStaged r d temporary p bytes now = (.error fault, d')) :
    d'.start = d.start ∧ d'.seen = d.seen := by
  unfold installStaged at h
  cases hcreate : unlessRefused r.temporary (d.create temporary now) with
  | error fault₁ =>
    rw [hcreate] at h
    obtain ⟨-, rfl⟩ := Prod.mk.inj h
    exact ⟨rfl, rfl⟩
  | ok d₁ =>
    obtain ⟨t, name, filled, hslot, hnone, haltered, -⟩ :=
      filled_altered (unlessRefused_ok hcreate) r bytes
    have hdiscard := discard_seen hslot hnone haltered now
    simp only [hcreate] at h
    generalize fill r d₁ temporary bytes now = outcome at h hdiscard
    obtain ⟨done, d₂⟩ := outcome
    -- Whatever fails from here on, the temporary file is discarded, and with it all that had
    -- changed.
    cases done with
    | error fault₁ =>
      obtain ⟨-, rfl⟩ := Prod.mk.inj h
      exact hdiscard
    | ok u =>
      simp only at h hdiscard
      split at h
      · obtain ⟨-, rfl⟩ := Prod.mk.inj h
        exact hdiscard
      · exact absurd h (by simp)

theorem writeStaged_error {r : Refusals} {temporary : String} {c c' : Cache} {bytes : List UInt8}
    {fault : Fault} (h : writeStaged r temporary c d p bytes now = (.error fault, c', d')) :
    c' = c ∧ Grown (· ∈ waypoints d.start (p.parent?.getD c.absoluteDirectory)) d d' := by
  have hgrown : Grown (· ∈ waypoints d.start (p.parent?.getD c.absoluteDirectory)) d
      (makeAllBy (makeUnless r now) (p.parent?.getD c.absoluteDirectory).ancestors d).2 :=
    makeAllBy_grown (fun _ _ _ hmade => unlessRefused_ok hmade) fun _ hq =>
      Path.destination_of_mem_ancestors hq
  unfold writeStaged at h
  generalize p.parent?.getD c.absoluteDirectory = directory at h hgrown
  simp only at h
  split at h
  · rename_i fault₁ d₁ hmade
    obtain ⟨-, rfl, rfl⟩ := h
    rw [hmade] at hgrown
    exact ⟨rfl, hgrown⟩
  · rename_i d₁ hmade
    rw [hmade] at hgrown
    split at h
    · rename_i fault₁ d₂ hinstall
      obtain ⟨-, rfl, rfl⟩ := h
      obtain ⟨hstart, hseen⟩ := installStaged_error hinstall
      exact ⟨rfl, hgrown.congr hstart hseen⟩
    · exact absurd h (by simp)

/-- **A write that fails may have made directories on the way to the entry, and that is all.** -/
theorem Writer.write_error {w : Writer} {c c' : Cache} {bytes : List UInt8} {fault : Fault}
    (h : w.write c d p bytes now = (.error fault, c', d')) :
    c' = c ∧ Grown (· ∈ waypoints d.start (p.parent?.getD c.absoluteDirectory)) d d' := by
  cases w with
  | staged r temporary => exact writeStaged_error h
  | atOnce =>
    obtain ⟨d₁, hgrown, hwrite⟩ := c.write_ways d p bytes now
    rw [Writer.write] at h
    rcases hwrite with ⟨fault', hwrite⟩ | ⟨c₂, d₂, -, hwrite⟩
    · rw [hwrite] at h
      obtain ⟨-, rfl, rfl⟩ := h
      exact ⟨rfl, hgrown⟩
    · rw [hwrite] at h
      exact absurd h (by simp)

/-! ## Nothing refused -/

theorem makeUnless_none (now : Instant) : makeUnless .none now = fun d p => d.makeDirectory p now :=
  rfl

/-- **If nothing is refused, a temporary file is a detour only:** the file is put where it would be
installed, and fails to be for the same reason. -/
theorem installStaged_none {d₁ : Disk} {temporary : Path}
    (hcreate : d.create temporary now = .ok d₁) {t : Target} {name : List Char}
    (ht : d.target p = .ok t) (hname : t.name = some name) (bytes : List UInt8) :
    match d.install p bytes now with
    | .error fault => ∃ d', installStaged .none d temporary p bytes now = (.error fault, d') ∧
        d'.start = d.start ∧ d'.seen = d.seen
    | .ok d₂ => ∃ d', installStaged .none d temporary p bytes now = (.ok (), d') ∧
        d'.start = d₂.start ∧ d'.seen = d₂.seen := by
  obtain ⟨t', name', filled, hslot, hnone, haltered, hfilled⟩ := filled_altered hcreate .none bytes
  -- Nothing is refused, so the temporary file is filled to the end, and the rename is the only step
  -- that can still fail.
  have hdone : (fill .none d₁ temporary bytes now).1 = .ok () := by
    obtain ⟨haltered₁, -⟩ := create_ok hcreate
    have hslot₁ :=
      hslot.mono haltered₁.start fun k hk => (haltered₁.isDirectoryAt_eq hnone k).trans hk
    have hself := haltered₁.seen_self
    rw [← haltered₁.start] at hself
    obtain ⟨d₂, hwrite⟩ := hslot₁.write hself bytes now
    simp only [fill, Refusals.none, hwrite]
  obtain rfl := hfilled hdone
  have hrename := rename_of_altered hslot hnone haltered ht hname
  rcases hfill : fill .none d₁ temporary filled now with ⟨done, d₂⟩
  rw [hfill] at hdone hrename
  obtain rfl : done = .ok () := hdone
  cases hinstall : d.install p filled now with
  | error fault =>
    simp only [hinstall] at hrename
    have hstaged : installStaged .none d temporary p filled now =
        (.error fault, (removeFile d₂ temporary now).2) := by
      simp only [installStaged, unlessRefused, Refusals.none, hcreate] at hfill ⊢
      simp only [hfill, hrename]
    exact ⟨_, hstaged, installStaged_error hstaged⟩
  | ok d' =>
    simp only [hinstall] at hrename
    obtain ⟨d₃, hrename, hsame⟩ := hrename
    refine ⟨d₃, ?_, hsame⟩
    simp only [installStaged, unlessRefused, Refusals.none, hcreate] at hfill ⊢
    simp only [hfill, hrename]

/-- **A write by way of a temporary file comes to the same as one at once,** if nothing is refused
and the temporary file has a place next to the entry's. -/
theorem writeStaged_none (c : Cache) (d : Disk) (p : Path) (bytes : List UInt8) (now : Instant)
    {temporary : String}
    (h : ∀ d₁, d.makeDirectories (p.parent?.getD c.absoluteDirectory) now = (.ok (), d₁) →
      (∃ d₂, d₁.create ((p.parent?.getD c.absoluteDirectory).join ⟨temporary⟩) now = .ok d₂) ∧
      ∃ t name, d₁.target p = .ok t ∧ t.name = some name) :
    ∃ d', writeStaged .none temporary c d p bytes now =
        ((c.write d p bytes now).1, (c.write d p bytes now).2.1, d') ∧
      d'.start = (c.write d p bytes now).2.2.start ∧
      d'.seen = (c.write d p bytes now).2.2.seen := by
  unfold writeStaged write
  generalize p.parent?.getD c.absoluteDirectory = directory at h
  simp only [makeUnless_none, makeAllBy_makeDirectory]
  unfold makeDirectories at h ⊢
  rcases hmade : makeAll now directory.ancestors d with ⟨made, d₁⟩
  cases made with
  | error fault => exact ⟨d₁, rfl, rfl, rfl⟩
  | ok u =>
    obtain ⟨⟨d₂, hcreate⟩, t, name, ht, hname⟩ := h d₁ hmade
    have hstaged := installStaged_none hcreate ht hname bytes
    -- Both make the same directories, and what is left to compare is the installing of one file.
    cases hinstall : d₁.install p bytes now with
    | error fault =>
      rw [hinstall] at hstaged
      obtain ⟨d', hstaged, hsame⟩ := hstaged
      simp only [hinstall, hstaged]
      exact ⟨d', rfl, hsame⟩
    | ok d₃ =>
      rw [hinstall] at hstaged
      obtain ⟨d', hstaged, hsame⟩ := hstaged
      simp only [hinstall, hstaged]
      exact ⟨d', rfl, hsame⟩

end Cache

end AltRender

import AltRender.Cache.Traffic
import AltRender.Proofs.Cache.Staging

/-!
# `Proofs/Cache/Traffic` — what one step changes on a disk that many write to

A step of a write does one of a few things (`Turn`), and each of them changes at most three places:
that of its temporary file, that of its target, and that of a directory on the way to both.
Directories stay whatever happens. So a write in progress loses its temporary file at most, to a
clear, and never finds another's in its place: what is there holds the bytes that were appended so
far (`Filling`).

The statements speak of one place at a time, since that is what several writes are about: what does
this step do *there*? For the place of its own temporary file the answer is in `Filling`, for all
other places in `Effect`. A clear does one thing only, to take away what it finds, and so it can
break nothing but the hold of a write on its temporary file.
-/

set_option autoImplicit false

namespace AltRender

open AltRender.Disk AltRender.Text

namespace Disk

variable {d d' d'' : Disk} {p : Path} {l : Location} {now : Instant}

/-! ## Directories that stay -/

structure Keeps (d d' : Disk) : Prop where
  start : d'.start = d.start
  directories : ∀ k, d.isDirectoryAt k = true → d'.isDirectoryAt k = true

theorem Keeps.refl (d : Disk) : Keeps d d :=
  ⟨rfl, fun _ hk => hk⟩

theorem Keeps.trans (h : Keeps d d') (h' : Keeps d' d'') : Keeps d d'' :=
  ⟨h'.start.trans h.start, fun k hk => h'.directories k (h.directories k hk)⟩

theorem Altered.keeps {item : Option Item} (h : Altered d l item d') (hl : d.seen l ≠ some folder) :
    Keeps d d' :=
  ⟨h.start, fun _ hk => h.isDirectoryAt_mono hl hk⟩

theorem Slot.look {t : Target} {name : List Char} {bytes : List UInt8} {written : Instant}
    (h : d.Slot p t name) (hfile : d.seen (p.destination d.start) = some (.file bytes written)) :
    d.look p = .ok (.file bytes written) := by
  have hfind := find_of_target h.target h.named h.ends (child_ok h.place).2 rfl (fun _ hk => hk)
    (by rw [hfile]; rfl)
  exact look_of_find hfind (item?_file_iff.mpr hfile)

/-- **A file that is renamed goes from one place and comes to another,** where no directory was. -/
theorem rename_ok {source : Path} {t : Target} {name : List Char} (hslot : d.Slot source t name)
    (h : d.rename source p now = .ok d') :
    ∃ bytes written d₁, d.seen (source.destination d.start) = some (.file bytes written) ∧
      Altered d (source.destination d.start) none d₁ ∧
      d₁.seen (p.destination d.start) ≠ some folder ∧
      Altered d₁ (p.destination d.start) (some (.file bytes written)) d' := by
  obtain ⟨item, hlook, h⟩ := bind_ok h
  cases item with
  | directory changed => exact absurd h (by simp)
  | file bytes written =>
    obtain ⟨l, hfind, h⟩ := bind_ok h
    obtain ⟨l', hput, h⟩ := bind_ok h
    obtain rfl := Except.ok.inj h
    obtain rfl := find_ok hfind
    have hfile := item?_file_iff.mp (look_ok hlook).2
    obtain ⟨hsource, hhome, -⟩ := target_ok hslot.target hslot.named
    rw [← hsource] at hfile ⊢
    have htaken := altered_takeAway hhome (String.ofList name) now
    obtain ⟨hplace, parent, last, hl', hparent⟩ := fileSlot_ok hput
    obtain ⟨-, -, -, -, -, -, hnot⟩ := fileSlot_cases hput
    rw [← hplace]
    -- The place written to was no directory, and with the temporary file gone it is none either,
    -- even where the two are the same.
    have hfolder : (d.takeAway (t.parent ++ [String.ofList name]) now).seen l' ≠ some folder := by
      intro hthere
      by_cases hl : l' = t.parent ++ [String.ofList name]
      · rw [hl, htaken.seen_self] at hthere
        exact absurd hthere (by simp)
      · rw [htaken.seen_of_ne hl] at hthere
        rw [isDirectoryAt_iff.mpr hthere] at hnot
        exact absurd hnot (by simp)
    have hparent' := htaken.isDirectoryAt_mono (by rw [hfile]; simp [folder]) hparent
    subst hl'
    exact ⟨bytes, written, _, hfile, htaken, hfolder,
      altered_place hparent' last (.file bytes written) now⟩

end Disk

namespace Cache

variable {d d' : Disk} {p : Path} {l : Location} {now : Instant}

/-- **Removing a file makes nothing:** at each place is what was there, or nothing. -/
theorem removeFile_seen (d : Disk) (p : Path) (now : Instant) (l : Location) :
    (removeFile d p now).2.seen l = d.seen l ∨ (removeFile d p now).2.seen l = none := by
  unfold removeFile
  split
  · rename_i d' hremove
    obtain ⟨haltered, -⟩ := remove_ok hremove
    by_cases hl : l = p.destination d.start
    · exact .inr (hl ▸ haltered.seen_self)
    · exact .inl (haltered.seen_of_ne hl)
  · exact .inl rfl

theorem removeFile_keeps (d : Disk) (p : Path) (now : Instant) :
    Keeps d (removeFile d p now).2 := by
  unfold removeFile
  split
  · rename_i d' hremove
    obtain ⟨haltered, bytes, t, hfile⟩ := remove_ok hremove
    exact haltered.keeps (by rw [hfile]; simp [folder])
  · exact Keeps.refl d

namespace Delivery

variable {j : Delivery} {progress progress' : Progress} {act : Act} {taken left : List UInt8}

/-! ## What a step can do -/

/-- A write goes nowhere, or gives up, without touching the disk. -/
inductive Resigns : Progress → Progress → Prop
  | stays (progress : Progress) : Resigns progress progress
  | refused (fault : Fault) : Resigns .making (.done (.error fault))
  | failed (taken left : List UInt8) (fault : Fault) :
      Resigns (.filling taken left) (.discarding fault)
  | leaves (fault : Fault) : Resigns (.discarding fault) (.done (.error fault))

/-- **What a step of a write can do.** -/
inductive Turn (now : Instant) (d : Disk) (j : Delivery) : Progress → Act → Progress → Disk → Prop
  | resigned {progress : Progress} {act : Act} {progress' : Progress}
      (h : Resigns progress progress') : Turn now d j progress act progress' d
  | made {p : Path} {d' : Disk} (hp : p ∈ j.directory.ancestors)
      (h : d.makeDirectory p now = .ok d') : Turn now d j .making (.make p) .making d'
  | created {d' : Disk} (h : d.create j.temporaryPath now = .ok d') :
      Turn now d j .making .create (.filling [] j.bytes) d'
  | appended (taken left : List UInt8) (n : Nat) :
      Turn now d j (.filling taken left) (.append n) (.filling (taken ++ left.take n) (left.drop n))
        (j.append d (taken ++ left.take n) now)
  | renamed {taken : List UInt8} {d' : Disk} (h : d.rename j.temporaryPath j.path now = .ok d') :
      Turn now d j (.filling taken []) .rename (.done (.ok ())) d'
  | discarded (fault : Fault) :
      Turn now d j (.discarding fault) .discard (.done (.error fault))
        (removeFile d j.temporaryPath now).2

/-- **A step does one of these things.** -/
theorem advance_turn (j : Delivery) (now : Instant) (d : Disk) (progress : Progress) (act : Act) :
    Turn now d j progress act (j.advance now d progress act).1
      (j.advance now d progress act).2 := by
  cases progress with
  | making =>
    cases act with
    | make p =>
      rw [advance]
      split
      · rename_i hp
        cases hmake : d.makeDirectory p now with
        | ok d' => exact .made hp hmake
        | error fault => exact .resigned (.stays _)
      · exact .resigned (.stays _)
    | create =>
      rw [advance]
      cases hcreate : d.create j.temporaryPath now with
      | ok d' => exact .created hcreate
      | error fault => exact .resigned (.refused fault)
    | fail fault => exact .resigned (.refused fault)
    | _ => exact .resigned (.stays _)
  | filling taken left =>
    cases act with
    | append n => exact .appended taken left n
    | rename =>
      cases left with
      | nil =>
        rw [advance]
        cases hrename : d.rename j.temporaryPath j.path now with
        | ok d' => exact .renamed hrename
        | error fault => exact .resigned (.failed taken [] fault)
      | cons byte left => exact .resigned (.stays _)
    | fail fault => exact .resigned (.failed taken left fault)
    | _ => exact .resigned (.stays _)
  | discarding fault =>
    cases act with
    | discard => exact .discarded fault
    | fail _ => exact .resigned (.leaves fault)
    | _ => exact .resigned (.stays _)
  | done result => cases act <;> exact .resigned (.stays _)

/-! ## The temporary file -/

/-- **A write is filling its temporary file:** that has a place, and if it is still there, it holds
what was appended. -/
structure Filling (d : Disk) (j : Delivery) (taken left : List UInt8) : Prop where
  slot : ∃ t name, d.Slot j.temporaryPath t name
  content : taken ++ left = j.bytes
  holds : ∀ bytes t, d.seen (j.temporaryPath.destination d.start) = some (.file bytes t) →
    bytes = taken

/-- It goes on as long as no other file comes to its place. -/
theorem Filling.keeps (h : Filling d j taken left) (hkeeps : Keeps d d')
    (hfile : ∀ bytes t, d'.seen (j.temporaryPath.destination d.start) = some (.file bytes t) →
      d.seen (j.temporaryPath.destination d.start) = some (.file bytes t)) :
    Filling d' j taken left := by
  obtain ⟨t, name, hslot⟩ := h.slot
  refine ⟨⟨t, name, hslot.mono hkeeps.start hkeeps.directories⟩, h.content,
    fun bytes t hthere => ?_⟩
  rw [hkeeps.start] at hthere
  exact h.holds bytes t (hfile bytes t hthere)

theorem filling_of_create (h : d.create j.temporaryPath now = .ok d') :
    Filling d' j [] j.bytes := by
  obtain ⟨haltered, hnone, t, name, hslot⟩ := create_ok h
  have hkeeps := haltered.keeps (by rw [hnone]; simp)
  refine ⟨⟨t, name, hslot.mono hkeeps.start hkeeps.directories⟩, List.nil_append _,
    fun bytes t hthere => ?_⟩
  rw [haltered.start, haltered.seen_self] at hthere
  exact (Item.file.inj (Option.some.inj hthere)).1.symm

/-- Appending writes to the temporary file, or to nothing that has a name. -/
theorem append_cases (j : Delivery) (d : Disk) (taken : List UInt8) (now : Instant) :
    j.append d taken now = d ∧
    (∀ d', d.write j.temporaryPath taken now = .ok d' → d.isFile j.temporaryPath = false) ∨
      d.write j.temporaryPath taken now = .ok (j.append d taken now) := by
  unfold append
  cases hfile : d.isFile j.temporaryPath with
  | false => exact .inl ⟨rfl, fun _ _ => rfl⟩
  | true =>
    cases hwrite : d.write j.temporaryPath taken now with
    | ok d' => exact .inr rfl
    | error fault => exact .inl ⟨rfl, fun _ h => absurd h (by simp)⟩

theorem Filling.append (h : Filling d j taken left) (n : Nat) (now : Instant) :
    Filling (j.append d (taken ++ left.take n) now) j (taken ++ left.take n) (left.drop n) := by
  have hcontent : taken ++ left.take n ++ left.drop n = j.bytes := by
    rw [List.append_assoc, List.take_append_drop, h.content]
  obtain ⟨t, name, hslot⟩ := h.slot
  rcases append_cases j d (taken ++ left.take n) now with ⟨hsame, hgone⟩ | hwrite
  · rw [hsame]
    refine ⟨h.slot, hcontent, fun bytes written hthere => ?_⟩
    -- A file that was still there would have been written to.
    obtain ⟨d', hwrite⟩ := hslot.write hthere (taken ++ left.take n) now
    have hnot := hgone d' hwrite
    rw [isFile, hslot.look hthere] at hnot
    exact absurd hnot (by simp [Item.isFile])
  · obtain ⟨haltered, hfolder⟩ := write_ok hwrite
    have hkeeps := haltered.keeps hfolder
    refine ⟨⟨t, name, hslot.mono hkeeps.start hkeeps.directories⟩, hcontent,
      fun bytes written hthere => ?_⟩
    rw [haltered.start, haltered.seen_self] at hthere
    exact (Item.file.inj (Option.some.inj hthere)).1.symm

/-- **What is renamed are all the bytes,** for nothing is left to be appended. -/
theorem Filling.rename (h : Filling d j taken [])
    (hrename : d.rename j.temporaryPath j.path now = .ok d') :
    ∃ t d₁, Altered d (j.temporaryPath.destination d.start) none d₁ ∧
      Altered d₁ (j.path.destination d.start) (some (.file j.bytes t)) d' ∧ Keeps d d' := by
  obtain ⟨t, name, hslot⟩ := h.slot
  obtain ⟨bytes, written, d₁, hfile, htaken, hfolder, hplaced⟩ := rename_ok hslot hrename
  obtain rfl : bytes = j.bytes := by rw [h.holds bytes written hfile, ← h.content, List.append_nil]
  exact ⟨written, d₁, htaken, hplaced,
    (htaken.keeps (by rw [hfile]; simp [folder])).trans (hplaced.keeps hfolder)⟩

/-! ## What a step changes -/

/-- What is known of a write: while it fills its temporary file, that holds what was appended. -/
def Fits (d : Disk) (j : Delivery) : Progress → Prop
  | .filling taken left => Filling d j taken left
  | _ => True

/-- **A step keeps what is known of its write.** -/
theorem Turn.fits (h : Turn now d j progress act progress' d') (hfits : Fits d j progress) :
    Fits d' j progress' := by
  cases h with
  | resigned h =>
    cases h with
    | stays => exact hfits
    | _ => trivial
  | created h => exact filling_of_create h
  | appended taken left n => exact Filling.append hfits n now
  | _ => trivial

theorem Turn.keeps (h : Turn now d j progress act progress' d') (hfits : Fits d j progress) :
    Keeps d d' := by
  cases h with
  | resigned => exact Keeps.refl d
  | made hp h =>
    obtain ⟨haltered, hnone, -⟩ := makeDirectory_ok h
    exact haltered.keeps (by rw [hnone]; simp)
  | created h =>
    obtain ⟨haltered, hnone, -⟩ := create_ok h
    exact haltered.keeps (by rw [hnone]; simp)
  | appended taken left n =>
    rcases append_cases j d (taken ++ left.take n) now with ⟨hsame, -⟩ | hwrite
    · rw [hsame]
      exact Keeps.refl d
    · obtain ⟨haltered, hfolder⟩ := write_ok hwrite
      exact haltered.keeps hfolder
  | renamed h =>
    obtain ⟨t, d₁, -, -, hkeeps⟩ := Filling.rename hfits h
    exact hkeeps
  | discarded => exact removeFile_keeps d _ now

/-- What a step of a write does at a place other than that of its temporary file. -/
inductive Effect (d : Disk) (j : Delivery) (progress' : Progress) (d' : Disk) (l : Location) : Prop
  /-- Nothing. -/
  | none (h : d'.seen l = d.seen l)
  /-- It makes a directory. -/
  | made (hbefore : d.seen l = .none) (hafter : d'.seen l = some folder)
      (hway : l ∈ waypoints d.start j.directory)
  /-- It puts all its bytes there, and is done. -/
  | delivered {t : Instant} (hdone : progress' = .done (.ok ()))
      (htarget : j.path.destination d.start = l) (hafter : d'.seen l = some (.file j.bytes t))

/-- **What a step changes:** the place of its temporary file, a directory on the way, or its target,
to which all the bytes come at once. -/
theorem Turn.effect (h : Turn now d j progress act progress' d') (hfits : Fits d j progress)
    (hl : l ≠ j.temporaryPath.destination d.start) : Effect d j progress' d' l := by
  -- Only a directory that is made and a rename are seen elsewhere than at the temporary file.
  cases h with
  | resigned => exact .none rfl
  | made hp h =>
    rename_i p
    obtain ⟨haltered, hnone, -⟩ := makeDirectory_ok h
    by_cases hplace : l = p.destination d.start
    · subst hplace
      exact .made hnone haltered.seen_self (Path.destination_of_mem_ancestors hp)
    · exact .none (haltered.seen_of_ne hplace)
  | created h => exact .none ((create_ok h).1.seen_of_ne hl)
  | appended taken left n =>
    rcases append_cases j d (taken ++ left.take n) now with ⟨hsame, -⟩ | hwrite
    · exact .none (by rw [hsame])
    · exact .none ((write_ok hwrite).1.seen_of_ne hl)
  | renamed h =>
    obtain ⟨t, d₁, htaken, hplaced, -⟩ := Filling.rename hfits h
    by_cases htarget : l = j.path.destination d.start
    · subst htarget
      exact .delivered rfl rfl hplaced.seen_self
    · exact .none ((hplaced.seen_of_ne htarget).trans (htaken.seen_of_ne hl))
  | discarded fault =>
    unfold removeFile
    split
    · rename_i d' hremove
      exact .none ((remove_ok hremove).1.seen_of_ne hl)
    · exact .none rfl

/-- **A write that comes to report success has just put all its bytes into place.** -/
theorem Turn.delivered (h : Turn now d j progress act (.done (.ok ())) d')
    (hfits : Fits d j progress) (hnew : progress ≠ .done (.ok ())) :
    act = .rename ∧ ∃ t, d'.seen (j.path.destination d.start) = some (.file j.bytes t) := by
  cases h with
  | resigned h =>
    cases h with
    | stays => exact absurd rfl hnew
  | renamed h =>
    obtain ⟨t, d₁, -, hplaced, -⟩ := Filling.rename hfits h
    exact ⟨rfl, t, hplaced.seen_self⟩

/-- A write that is done stays done. -/
theorem Turn.done {result : Except Fault Unit} (h : Turn now d j (.done result) act progress' d') :
    progress' = .done result := by
  cases h with
  | resigned h =>
    cases h with
    | stays => rfl

end Delivery

end Cache

end AltRender

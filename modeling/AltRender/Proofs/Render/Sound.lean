import AltRender.Proofs.Cache.Change
import AltRender.Proofs.Cache.Freshness
import AltRender.Proofs.Filter.Picture
import AltRender.Render

/-!
# `Proofs/Render/Sound` — what the entries of a cache are

An entry has a history: some source had some bytes, a chain made a picture of them, and the picture
was written under the name of the entry. A cache is *sound* if every entry has such a history and
its source either still has these bytes or was written after the entry, by a millisecond at least
(`Sound`). In the second case the entry is not current, so an entry that is current holds what the
source's bytes make now (`Sound.serves_of_isCurrent`). This is where the codec has to read back what
it wrote; soundness itself speaks of bytes and holds for every codec.

Each thing that happens to the disk keeps a cache sound:

* directories made on the way to it (`Sound.grown`) and entries removed (`Sound.thinned`);
* sources written (`Sound.overwritten`) and entries installed (`Sound.installed`).

While entries are made from bytes that may be old by now, soundness exempts the names of these
entries, the *pending* ones.
-/

set_option autoImplicit false

namespace AltRender

open AltRender.Disk AltRender.Cache

/-! ## Times -/

/-- Whether a time is earlier than another by a millisecond or more. -/
def Disk.Instant.Before (s t : Instant) : Prop :=
  s.nanoseconds + 1000000 ≤ t.nanoseconds

instance (s t : Instant) : Decidable (s.Before t) :=
  inferInstanceAs (Decidable (_ ≤ _))

theorem Disk.Instant.Before.le {s t : Instant} (h : s.Before t) :
    s.nanoseconds ≤ t.nanoseconds := by
  unfold Before at h
  omega

theorem Disk.Instant.Before.of_le {r s t : Instant} (h : s.Before t)
    (hr : r.nanoseconds ≤ s.nanoseconds) : r.Before t := by
  unfold Before at h ⊢
  omega

/-- **An entry that was written before its source is not current,** unless the source counts as
remote. -/
theorem Cache.not_isCurrentFor {path : Path} {changed : Instant}
    (hlocal : (Source.atPath path changed).isRemote = false) {item : Item}
    (hepoch : 0 ≤ item.changed.nanoseconds) (h : item.changed.Before changed) :
    isCurrentFor (Source.atPath path changed) item = false := by
  unfold Instant.Before at h
  have hsince : 0 ≤ changed.nanoseconds := by omega
  rw [Bool.eq_false_iff, Ne, isCurrentFor_iff hsince hepoch, ← Source.isRemote_iff hsince, hlocal,
    Instant.nanoseconds_millisecond]
  simp only [Bool.false_eq_true, false_or]
  omega

/-! ## Developing -/

namespace Studio

variable {codec : Codec} {chain chain' : Chain} {s : Source} {theme : Option Theme}
  {bytes contents : List UInt8} {picture : Picture}

theorem develop_ok :
    develop codec chain s theme bytes = .ok picture ↔
      ∃ p frame, codec.decode bytes = .ok p ∧ chain.apply ⟨p.normalize, s⟩ theme = .ok frame ∧
        frame.picture = picture := by
  unfold develop
  cases codec.decode bytes with
  | error e => simp
  | ok p =>
    cases happly : chain.apply ⟨p.normalize, s⟩ theme with
    | error e => simp [happly]
    | ok frame => simp [happly]

theorem print_ok :
    print codec chain s theme bytes = .ok contents ↔
      ∃ picture, develop codec chain s theme bytes = .ok picture ∧
        codec.encode picture = .ok contents := by
  unfold print
  cases develop codec chain s theme bytes with
  | error e => simp
  | ok picture =>
    cases hencode : codec.encode picture with
    | error e => simp [hencode, Except.mapError]
    | ok made => simp [hencode, Except.mapError]

/-- A chain of built-in filters leaves every picture in a working form. -/
theorem exists_working_of_develop (h : chain.IsBuiltin)
    (hdevelop : develop codec chain s theme bytes = .ok picture) : ∃ w, picture = .ofWorking w := by
  obtain ⟨p, frame, -, happly, rfl⟩ := develop_ok.mp hdevelop
  obtain ⟨g, hg⟩ := Chain.exists_change h
  rw [hg] at happly
  cases hmake : g.make theme p.normalize with
  | error e =>
    rw [hmake] at happly
    exact absurd happly (by simp [Except.map])
  | ok q =>
    rw [hmake] at happly
    obtain rfl := Except.ok.inj happly
    exact g.working hmake

/-- What is made of a picture's bytes depends on the signatures of the chain; the source they came
from plays no part. -/
theorem develop_congr (h : chain.IsBuiltin) (h' : chain'.IsBuiltin)
    (hsignatures : chain.signatures = chain'.signatures) (s' : Source)
    (hdevelop : develop codec chain s theme bytes = .ok picture) :
    develop codec chain' s' theme bytes = .ok picture := by
  obtain ⟨p, frame, hdecode, happly, rfl⟩ := develop_ok.mp hdevelop
  obtain ⟨g, hg⟩ := Chain.exists_change h
  rw [hg] at happly
  have happly' := hg ⟨p.normalize, s'⟩ theme
  rw [Chain.apply_eq_of_signatures h h' hsignatures] at happly'
  cases hmake : g.make theme p.normalize with
  | error e =>
    rw [hmake] at happly
    exact absurd happly (by simp [Except.map])
  | ok q =>
    rw [hmake] at happly happly'
    obtain rfl := Except.ok.inj happly
    exact develop_ok.mpr ⟨p, _, hdecode, happly', rfl⟩

/-- Neither do the bytes of an entry. -/
theorem print_congr (h : chain.IsBuiltin) (h' : chain'.IsBuiltin)
    (hsignatures : chain.signatures = chain'.signatures) (s' : Source)
    (hprint : print codec chain s theme bytes = .ok contents) :
    print codec chain' s' theme bytes = .ok contents := by
  obtain ⟨picture, hdevelop, hencode⟩ := print_ok.mp hprint
  exact print_ok.mpr ⟨picture, develop_congr h h' hsignatures s' hdevelop, hencode⟩

/-- **What was made of a picture is read back from its entry,** if the codec reads back what it
wrote. -/
theorem decode_of_print (hcodec : codec.ReadsBack) (h : chain.IsBuiltin)
    (hprint : print codec chain s theme bytes = .ok contents) :
    ∃ picture, develop codec chain s theme bytes = .ok picture ∧
      codec.decode contents = .ok picture := by
  obtain ⟨picture, hdevelop, hencode⟩ := print_ok.mp hprint
  obtain ⟨w, rfl⟩ := exists_working_of_develop h hdevelop
  exact ⟨_, hdevelop, hcodec w contents hencode⟩

end Studio

/-! ## Where things are -/

/-- Where sources and entries are: the root that sources are relative to, the directory of the
cache, and the location that relative paths start from; and the codec that both are read and written
with. -/
structure Site where
  codec : Codec
  root : Path
  directory : Path
  start : Location

namespace Site

/-- The location of the cache. -/
def home (t : Site) : Location :=
  t.directory.destination t.start

/-- The location of a source. -/
def sourceAt (t : Site) (identity : String) : Location :=
  (t.root.join ⟨identity⟩).destination t.start

/-- The location of an entry. -/
def entryAt (t : Site) (s : Source) (c : Chain) (theme : Option Theme) : Location :=
  t.home ++ [entryName s c.signatures theme]

/-- **Sources and entries do not get in each other's way:** the path of the cache does not lead
through a place for an entry, no source is in the cache, and no two sources have the same
fingerprint. -/
structure Apart (t : Site) (identities : List String) : Prop where
  route : ∀ (s : Source) (c : Chain) (theme : Option Theme), c.IsBuiltin →
    t.entryAt s c theme ∉ waypoints t.start t.directory
  outside : ∀ identity ∈ identities, ¬ t.home <+: t.sourceAt identity
  fingerprints : ∀ s s' : Source, s.identity ∈ identities → s'.identity ∈ identities →
    fingerprint s = fingerprint s' → s.identity = s'.identity

theorem Apart.sourceAt_ne {t : Site} {identities : List String} (h : t.Apart identities)
    {identity : String} (hi : identity ∈ identities) (name : String) :
    t.sourceAt identity ≠ t.home ++ [name] := by
  intro heq
  exact h.outside identity hi (heq ▸ List.prefix_append t.home [name])

end Site

/-! ## Histories of entries -/

/-- What an entry was made from: a source and its bytes, a chain and a theme; and what was made for
it to hold. -/
structure Making (t : Site) (identities : List String) where
  source : Source
  chain : Chain
  theme : Option Theme
  original : List UInt8
  contents : List UInt8
  mem : source.identity ∈ identities
  confined : Vault.isConfined ⟨source.identity⟩ = true
  builtin : chain.IsBuiltin
  printed : Studio.print t.codec chain source theme original = .ok contents

namespace Making

variable {t : Site} {identities : List String}

/-- The name of the entry. -/
def name (m : Making t identities) : String :=
  entryName m.source m.chain.signatures m.theme

/-- The location of the source. -/
def sourceAt (m : Making t identities) : Location :=
  t.sourceAt m.source.identity

/-- Whether the source still has the bytes that the entry was made from, or was written after the
entry. -/
def IsUpToDate (m : Making t identities) (d : Disk) (written : Instant) : Prop :=
  ∃ bytes changed, d.seen m.sourceAt = some (.file bytes changed) ∧
    (bytes = m.original ∨ written.Before changed)

theorem IsUpToDate.congr {m : Making t identities} {d d' : Disk} {written : Instant}
    (h : m.IsUpToDate d written) (hseen : d'.seen m.sourceAt = d.seen m.sourceAt) :
    m.IsUpToDate d' written := by
  obtain ⟨bytes, changed, hfile, hbytes⟩ := h
  exact ⟨bytes, changed, hseen ▸ hfile, hbytes⟩

/-- Two entries of one name were made from one source, with chains that do the same, under one
theme. -/
theorem of_name_eq (h : t.Apart identities) (m : Making t identities) {s : Source} {c : Chain}
    {theme : Option Theme} (hs : s.identity ∈ identities) (hc : c.IsBuiltin)
    (hname : m.name = entryName s c.signatures theme) :
    m.source.identity = s.identity ∧ m.chain.signatures = c.signatures ∧ m.theme = theme := by
  obtain ⟨hfingerprint, -, hsignatures, htheme⟩ :=
    parts_of_entryName (unmistakable_signatures m.builtin) (unmistakable_signatures hc) hname
  exact ⟨h.fingerprints _ _ m.mem hs hfingerprint, hsignatures, htheme⟩

end Making

/-! ## Soundness -/

/-- **A sound cache:** every entry has a history and, unless it is pending, is up to date; no
directory stands in the place of an entry, and all names are plain. -/
structure Sound (t : Site) (identities : List String) (pending : List String) (clock : Instant)
    (d : Disk) : Prop where
  start : d.start = t.start
  entries : ∀ name bytes written, d.seen (t.home ++ [name]) = some (.file bytes written) →
    ∃ m : Making t identities, m.name = name ∧ m.contents = bytes ∧ 0 ≤ written.nanoseconds ∧
      written.nanoseconds ≤ clock.nanoseconds ∧
      (∃ now changed, d.seen m.sourceAt = some (.file now changed)) ∧
      (name ∈ pending ∨ m.IsUpToDate d written)
  folders : ∀ (s : Source) (c : Chain) (theme : Option Theme), c.IsBuiltin →
    d.seen (t.entryAt s c theme) ≠ some folder
  plain : ∀ name, (d.seen (t.home ++ [name])).isSome = true → PlainName name

namespace Sound

variable {t : Site} {identities pending : List String} {clock : Instant} {d d' : Disk}

theorem of_empty (hstart : d.start = t.start) (h : ∀ name, d.seen (t.home ++ [name]) = none) :
    Sound t identities pending clock d := by
  refine ⟨hstart, ?_, ?_, ?_⟩
  · intro name bytes written hfile
    rw [h] at hfile
    exact absurd hfile (by simp)
  · intro s c theme _ hfolder
    rw [Site.entryAt, h] at hfolder
    exact absurd hfolder (by simp)
  · intro name hsome
    rw [h] at hsome
    exact absurd hsome (by simp)

theorem later (h : Sound t identities pending clock d) {now : Instant}
    (hnow : clock.nanoseconds ≤ now.nanoseconds) : Sound t identities pending now d := by
  refine ⟨h.start, ?_, h.folders, h.plain⟩
  intro name bytes written hfile
  obtain ⟨m, hname, hbytes, hepoch, hclock, hrest⟩ := h.entries name bytes written hfile
  exact ⟨m, hname, hbytes, hepoch, hclock.trans hnow, hrest⟩

/-- **Directories made on the way to the cache keep it sound.** -/
theorem grown (h : Sound t identities pending clock d) (hapart : t.Apart identities)
    (hgrown : Grown (· ∈ waypoints t.start t.directory) d d') :
    Sound t identities pending clock d' := by
  refine ⟨hgrown.start.trans h.start, ?_, ?_, ?_⟩
  · -- No file is new, and none is lost.
    intro name bytes written hfile
    obtain ⟨m, hname, hbytes, hepoch, hclock, ⟨now, changed, hsource⟩, hrest⟩ :=
      h.entries name bytes written (hgrown.file_iff.mp hfile)
    refine ⟨m, hname, hbytes, hepoch, hclock, ⟨now, changed, hgrown.kept _ _ hsource⟩, ?_⟩
    rcases hrest with hpending | hcurrent
    · exact .inl hpending
    · exact .inr (hcurrent.congr (by rw [hsource, hgrown.kept _ _ hsource]))
  · -- A new directory stands on the way to the cache, and the place of an entry does not.
    intro s c theme hc hfolder
    rcases hgrown.new _ _ hfolder with hold | ⟨-, hplace, -⟩
    · exact h.folders s c theme hc hold
    · exact hapart.route s c theme hc hplace
  · intro name hsome
    obtain ⟨item, hitem⟩ := Option.isSome_iff_exists.mp hsome
    rcases hgrown.new _ _ hitem with hold | ⟨-, -, parent, name', heq, hplain⟩
    · exact h.plain name (by rw [hold]; rfl)
    · obtain ⟨-, hnames⟩ := List.append_inj' heq rfl
      exact List.singleton_inj.mp hnames ▸ hplain

/-- **Entries removed keep a cache sound.** -/
theorem thinned (h : Sound t identities pending clock d) (hapart : t.Apart identities)
    (hthinned : Thinned t.home d d') : Sound t identities pending clock d' := by
  refine ⟨hthinned.start.trans h.start, ?_, ?_, ?_⟩
  · intro name bytes written hfile
    obtain ⟨m, hname, hbytes, hepoch, hclock, ⟨now, changed, hsource⟩, hrest⟩ :=
      h.entries name bytes written (hthinned.seen_of_some hfile)
    have hseen : d'.seen m.sourceAt = d.seen m.sourceAt :=
      hthinned.seen_of_outside (hapart.sourceAt_ne m.mem)
    refine ⟨m, hname, hbytes, hepoch, hclock, ⟨now, changed, hseen ▸ hsource⟩, ?_⟩
    exact hrest.imp id fun hcurrent => hcurrent.congr hseen
  · intro s c theme hc hfolder
    exact h.folders s c theme hc (hthinned.seen_of_some hfolder)
  · intro name hsome
    obtain ⟨item, hitem⟩ := Option.isSome_iff_exists.mp hsome
    exact h.plain name (by rw [hthinned.seen_of_some hitem]; rfl)

/-- **A source written keeps a cache sound,** and all entries that were made from it are up to date
then: they are older than the source. -/
theorem overwritten (h : Sound t identities pending clock d) {l : Location} (hout : ¬ t.home <+: l)
    {bytes : List UInt8} {now : Instant} (haltered : Altered d l (some (.file bytes now)) d')
    (hnow : clock.Before now)
    (hpending : ∀ m : Making t identities, m.name ∈ pending → m.sourceAt = l) :
    Sound t identities [] now d' := by
  have hne : ∀ name, t.home ++ [name] ≠ l := by
    rintro name rfl
    exact hout (List.prefix_append _ _)
  refine ⟨haltered.start.trans h.start, ?_, ?_, ?_⟩
  · intro name contents written hfile
    rw [haltered.seen_of_ne (hne name)] at hfile
    obtain ⟨m, hname, hbytes, hepoch, hclock, ⟨old, changed, hsource⟩, hrest⟩ :=
      h.entries name contents written hfile
    have hbefore : written.Before now := hnow.of_le hclock
    have hclock' : written.nanoseconds ≤ now.nanoseconds := hbefore.le
    by_cases hl : m.sourceAt = l
    · -- The entry was made from this source; whether it was up to date or not, it is older now.
      have hnew : d'.seen m.sourceAt = some (.file bytes now) := by rw [hl, haltered.seen_self]
      exact ⟨m, hname, hbytes, hepoch, hclock', ⟨bytes, now, hnew⟩,
        .inr ⟨bytes, now, hnew, .inr hbefore⟩⟩
    · -- It was made from another, so it is not pending and nothing has changed for it.
      have hseen := haltered.seen_of_ne hl
      rcases hrest with hmem | hcurrent
      · exact absurd (hpending m (hname ▸ hmem)) hl
      · exact ⟨m, hname, hbytes, hepoch, hclock', ⟨old, changed, hseen ▸ hsource⟩,
          .inr (hcurrent.congr hseen)⟩
  · intro s c theme hc
    rw [Site.entryAt, haltered.seen_of_ne (hne _)]
    exact h.folders s c theme hc
  · intro name hsome
    rw [haltered.seen_of_ne (hne name)] at hsome
    exact h.plain name hsome

/-- **An entry installed keeps a cache sound,** if it is up to date or counts as pending. -/
theorem installed (h : Sound t identities pending clock d) (hapart : t.Apart identities)
    (m : Making t identities) {now : Instant}
    (haltered : Altered d (t.home ++ [m.name]) (some (.file m.contents now)) d')
    (hepoch : 0 ≤ now.nanoseconds) (hclock : clock.nanoseconds ≤ now.nanoseconds)
    {pending' : List String}
    (hsource : ∃ bytes changed, d.seen m.sourceAt = some (.file bytes changed) ∧
      (m.name ∈ pending' ∨ bytes = m.original))
    (hpending : pending ⊆ pending') : Sound t identities pending' now d' := by
  have hseen : ∀ m' : Making t identities, d'.seen m'.sourceAt = d.seen m'.sourceAt := fun m' =>
    haltered.seen_of_ne (hapart.sourceAt_ne m'.mem m.name)
  -- The three fields in turn; each of them splits on whether the name is that of the new entry.
  refine ⟨haltered.start.trans h.start, ?_, ?_, ?_⟩
  · intro name contents written hfile
    by_cases hname : name = m.name
    · -- The new entry, which has the history that it is installed with.
      subst hname
      rw [haltered.seen_self, Option.some.injEq, Item.file.injEq] at hfile
      obtain ⟨rfl, rfl⟩ := hfile
      obtain ⟨bytes, changed, hbytes, hnew⟩ := hsource
      refine ⟨m, rfl, rfl, hepoch, Int.le_refl _, ⟨bytes, changed, (hseen m).trans hbytes⟩, ?_⟩
      exact hnew.imp id fun heq => ⟨bytes, changed, (hseen m).trans hbytes, .inl heq⟩
    · rw [haltered.seen_of_ne (by simpa using hname)] at hfile
      obtain ⟨m', hname', hbytes, hepoch', hclock', ⟨bytes, changed, hold⟩, hrest⟩ :=
        h.entries name contents written hfile
      refine ⟨m', hname', hbytes, hepoch', hclock'.trans hclock,
        ⟨bytes, changed, (hseen m').trans hold⟩, ?_⟩
      exact hrest.imp (fun hmem => hpending hmem) fun hcurrent => hcurrent.congr (hseen m')
  · intro s c theme hc hfolder
    by_cases hname : entryName s c.signatures theme = m.name
    · rw [Site.entryAt, hname, haltered.seen_self] at hfolder
      exact absurd (Option.some.inj hfolder) (by simp [folder])
    · rw [Site.entryAt, haltered.seen_of_ne (by simpa using hname)] at hfolder
      exact h.folders s c theme hc hfolder
  · intro name hsome
    by_cases hname : name = m.name
    · subst hname
      exact plainName_entryName _ (noSlash_signatures m.builtin) _
    · rw [haltered.seen_of_ne (by simpa using hname)] at hsome
      exact h.plain name hsome

/-- Nothing is pending once the pending entries are gone. -/
theorem settled (h : Sound t identities pending clock d)
    (hgone :
      ∀ name ∈ pending, ∀ bytes written, d.seen (t.home ++ [name]) ≠ some (.file bytes written)) :
    Sound t identities [] clock d := by
  refine ⟨h.start, ?_, h.folders, h.plain⟩
  intro name bytes written hfile
  obtain ⟨m, hname, hbytes, hepoch, hclock, hsource, hstate⟩ := h.entries name bytes written hfile
  refine ⟨m, hname, hbytes, hepoch, hclock, hsource, .inr ?_⟩
  exact hstate.resolve_left fun hmem => hgone name hmem bytes written hfile

end Sound

/-! ## What is served -/

/-- **What stands at a path is what a chain makes of some bytes.** -/
def Serves (codec : Codec) (d : Disk) (p : Path) (original : List UInt8) (s : Source)
    (chain : Chain) (theme : Option Theme) : Prop :=
  ∃ picture frame bytes, codec.decode original = .ok picture ∧
    chain.apply ⟨picture.normalize, s⟩ theme = .ok frame ∧ d.read p = .ok bytes ∧
    codec.decode bytes = .ok frame.picture

theorem serves_of_look {codec : Codec} (hcodec : codec.ReadsBack) {d : Disk} {p : Path}
    {original contents : List UInt8} {s : Source} {chain : Chain} (hchain : chain.IsBuiltin)
    {theme : Option Theme} (hprint : Studio.print codec chain s theme original = .ok contents)
    {t : Instant} (hlook : d.look p = .ok (.file contents t)) :
    Serves codec d p original s chain theme := by
  obtain ⟨picture, hdevelop, hdecode⟩ := Studio.decode_of_print hcodec hchain hprint
  obtain ⟨decoded, frame, horiginal, happly, rfl⟩ := Studio.develop_ok.mp hdevelop
  exact ⟨decoded, frame, _, horiginal, happly, read_of_look hlook, hdecode⟩

theorem describe_ok {root : Path} {d : Disk} {identity : String} {s : Source}
    (h : Vault.describe root d ⟨identity⟩ = .ok s) :
    ∃ item, d.look (root.join ⟨identity⟩) = .ok item ∧
      s = Source.atPath ⟨identity⟩ item.changed := by
  unfold Vault.describe at h
  cases hlook : d.look (root.join ⟨identity⟩) with
  | error e =>
    rw [hlook] at h
    exact absurd h (by simp [Except.map])
  | ok item =>
    rw [hlook] at h
    exact ⟨item, rfl, (Except.ok.inj h).symm⟩

/-- **A current entry that is not pending serves what the source's bytes make now.** -/
theorem Sound.serves_of_isCurrent {t : Site} {identities pending : List String} {clock : Instant}
    {d : Disk} (h : Sound t identities pending clock d) (hcodec : t.codec.ReadsBack)
    (hapart : t.Apart identities) {c : Cache} (hdirectory : c.absoluteDirectory = t.directory)
    {identity : String} (hi : identity ∈ identities) {s : Source}
    (hs : Vault.describe t.root d ⟨identity⟩ = .ok s) (hlocal : s.isRemote = false) {chain : Chain}
    (hchain : chain.IsBuiltin) {theme : Option Theme}
    (hcurrent : c.isCurrent d s chain.signatures theme = true)
    (hpending : entryName s chain.signatures theme ∉ pending) :
    ∃ original, d.read (t.root.join ⟨identity⟩) = .ok original ∧
      Serves t.codec d (c.entryPath s chain.signatures theme) original s chain theme := by
  obtain ⟨sourceItem, hsource, rfl⟩ := describe_ok hs
  unfold Cache.isCurrent at hcurrent
  cases hlook :
    d.look (c.entryPath (Source.atPath ⟨identity⟩ sourceItem.changed) chain.signatures theme) with
  | error e =>
    rw [hlook] at hcurrent
    exact absurd hcurrent (by simp)
  | ok item =>
    simp only [hlook] at hcurrent
    obtain ⟨-, hitem⟩ := look_ok hlook
    have hplace :
      (c.entryPath (Source.atPath ⟨identity⟩ sourceItem.changed) chain.signatures theme).destination
        d.start = t.entryAt (Source.atPath ⟨identity⟩ sourceItem.changed) chain theme := by
      rw [destination_entryPath c _ _ (noSlash_signatures hchain), Cache.home, hdirectory, h.start]
      rfl
    rw [hplace] at hitem
    cases item with
    | directory changed =>
      -- A directory would count as current, too, but soundness leaves none in the place of an
      -- entry.
      have hfolder : d.isDirectoryAt
        (t.entryAt (Source.atPath ⟨identity⟩ sourceItem.changed) chain theme) = true := by
        rw [isDirectoryAt, hitem]
      exact absurd (isDirectoryAt_iff.mp hfolder) (h.folders _ _ _ hchain)
    | file bytes written =>
      obtain ⟨m, hname, rfl, hepoch, -, -, hstate⟩ := h.entries _ _ _ (item?_file_iff.mp hitem)
      obtain ⟨hidentity, hsignatures, rfl⟩ := m.of_name_eq hapart hi hchain hname
      obtain ⟨original, changed, hfile, hbytes⟩ := hstate.resolve_left hpending
      -- What was described is the file that the entry's history speaks of.
      have hsame : sourceItem = .file original changed := by
        obtain ⟨-, hthere⟩ := look_ok hsource
        have hat : d.item? m.sourceAt = some (.file original changed) := item?_file_iff.mpr hfile
        rw [Making.sourceAt, hidentity, Site.sourceAt, ← h.start] at hat
        exact Option.some.inj (hthere.symm.trans hat)
      subst hsame
      -- Had the source been written after the entry, the entry would not be current.
      have horiginal : original = m.original := by
        rcases hbytes with heq | hbefore
        · exact heq
        · have hstale :=
            @not_isCurrentFor ⟨identity⟩ changed hlocal (.file m.contents written) hepoch hbefore
          rw [show isCurrentFor (Source.atPath ⟨identity⟩ changed) _ = true from hcurrent] at hstale
          exact absurd hstale (by simp)
      subst horiginal
      have hprint := Studio.print_congr m.builtin hchain hsignatures
        (Source.atPath ⟨identity⟩ (Item.file m.original changed).changed) m.printed
      exact ⟨m.original, read_of_look hsource, serves_of_look hcodec hchain hprint hlook⟩

end AltRender

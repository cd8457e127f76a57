import AltRender.Command.Run
import AltRender.Proofs.Picture.Encoding
import AltRender.Proofs.Render.Tidy

/-!
# `Proofs/Render/Run` — what is served is current

Sources are written, pictures are rendered, entries are removed, one after the other and each at a
later time. Each of these actions keeps a studio tidy (`Tidy.act`), so a run of them does
(`Tidy.run`), and an empty cache is tidy from the start (`Tidy.of_empty`). So what a render answers
with at the end of a run holds what the bytes of its source make then.

Tidiness has a clock in it: no entry was written after it, so that the next action, a millisecond or
more ahead, is later than all of them. That is why the actions have to be so far apart. With two in
one millisecond a source could be written after its entry and look as old.

At the end stand two runs where something is served that is not current, which the hypotheses rule
out: a path of the cache that leads through the place of an entry (`cached_of_detour`), and a source
with the greatest time of all (`cached_of_unchanging`).
-/

set_option autoImplicit false

namespace AltRender

open AltRender.Disk AltRender.Cache

namespace Studio

/-! ## Actions -/

/-- What may be done with a studio and its sources. -/
inductive Action where
  | overwrite (identity : String) (bytes : List UInt8)
  | render (identity : String) (text : String) (theme : Option Theme)
  | clear (s : Source) (text : String) (theme : Option Theme)
  | invalidate (s : Source)
  | clearEntire

/-- The source that an action writes or reads. -/
def Action.identity? : Action → Option String
  | .overwrite identity _ => some identity
  | .render identity _ _ => some identity
  | _ => none

/-- Bytes written to a source, if the disk lets them. -/
def overwrite (studio : Studio) (root : Path) (identity : String) (bytes : List UInt8)
    (now : Instant) : Studio :=
  match studio.disk.write (root.join ⟨identity⟩) bytes now with
  | .ok d => { studio with disk := d }
  | .error _ => studio

/-- The entry of a source for a text and a theme removed. -/
def clear (studio : Studio) (s : Source) (text : String) (theme : Option Theme) (now : Instant) :
    Studio :=
  let (cache, disk) :=
    studio.cache.clear studio.disk s (studio.registry.chainOf text).signatures theme now
  { studio with cache := cache, disk := disk }

/-- A source rendered as it is described at that moment. There is no render if it cannot be
described or counts as remote. -/
def renderLocal (fetch : Fetch) (studio : Studio) (root : Path) (identity text : String)
    (theme : Option Theme) (now : Instant) : Studio :=
  match Vault.describe root studio.disk ⟨identity⟩ with
  | .ok s => if s.isRemote then studio else (studio.render fetch s text theme now).2
  | .error _ => studio

/-- **The studio after an action.** -/
def act (fetch : Fetch) (root : Path) (studio : Studio) (now : Instant) : Action → Studio
  | .overwrite identity bytes => studio.overwrite root identity bytes now
  | .render identity text theme => studio.renderLocal fetch root identity text theme now
  | .clear s text theme => studio.clear s text theme now
  | .invalidate s => (studio.invalidate s now).2
  | .clearEntire => (studio.clearEntire now).2

/-- The studio after several actions, each with its time. -/
def run (fetch : Fetch) (root : Path) (studio : Studio) (actions : List (Instant × Action)) :
    Studio :=
  actions.foldl (fun studio a => studio.act fetch root a.1 a.2) studio

theorem isLocal_localFetch (root : Path) : (Command.localFetch root).IsLocal root := by
  intro d s hlocal
  rw [Command.localFetch, hlocal, if_neg Bool.false_ne_true]

/-! ## Each action keeps a studio tidy -/

variable {t : Site} {identities pending : List String} {clock now : Instant} {fetch : Fetch}
  {studio : Studio}

theorem Tidy.of_empty {root : Path} (hregistry : studio.registry = Registry.builtin)
    (h : ∀ name, studio.disk.seen ((studio.site root).home ++ [name]) = none) :
    studio.Tidy (studio.site root) identities [] clock :=
  ⟨hregistry, rfl, rfl, .of_empty rfl h⟩

/-- A source written is newer than all that was made from it, so nothing is pending then. -/
theorem Tidy.overwritten (h : studio.Tidy t identities pending clock) (hapart : t.Apart identities)
    {identity : String} (hi : identity ∈ identities) {bytes : List UInt8} (hnow : clock.Before now)
    {d : Disk} (hwrite : studio.disk.write (t.root.join ⟨identity⟩) bytes now = .ok d)
    (hpending : ∀ m : Making t identities, m.name ∈ pending → m.source.identity = identity) :
    ({ studio with disk := d }).Tidy t identities [] now := by
  obtain ⟨haltered, -⟩ := write_ok hwrite
  rw [h.sound.start] at haltered
  refine ⟨h.registry, h.codec, h.directory,
    h.sound.overwritten (hapart.outside identity hi) haltered hnow ?_⟩
  intro m hm
  rw [Making.sourceAt, hpending m hm, Site.sourceAt]

theorem Tidy.thinned (h : studio.Tidy t identities pending clock) (hapart : t.Apart identities)
    {c : Cache} {d : Disk} (hc : c.absoluteDirectory = studio.cache.absoluteDirectory)
    (hd : Thinned t.home studio.disk d) :
    ({ studio with cache := c, disk := d }).Tidy t identities pending clock :=
  ⟨h.registry, h.codec, hc.trans h.directory, h.sound.thinned hapart hd⟩

theorem Tidy.removeMatching_thinned (h : studio.Tidy t identities pending clock)
    {test : String → Bool} {n : Nat} {d : Disk}
    (hremove : removeMatching studio.cache.absoluteDirectory studio.disk test now = (n, d)) :
    Thinned t.home studio.disk d := by
  have hhome : studio.cache.absoluteDirectory.destination studio.disk.start = t.home := by
    rw [h.directory, h.sound.start, Site.home]
  have hthinned := Cache.removeMatching_thinned hhome h.sound.plain test now
  rw [hremove] at hthinned
  exact hthinned

theorem Tidy.clear (h : studio.Tidy t identities pending clock) (hapart : t.Apart identities)
    (s : Source) (text : String) (theme : Option Theme) (now : Instant) :
    (studio.clear s text theme now).Tidy t identities pending clock := by
  have hbuiltin : (studio.registry.chainOf text).IsBuiltin :=
    h.registry ▸ Chain.isBuiltin_chainOf text
  have hp : (studio.cache.entryPath s (studio.registry.chainOf text).signatures theme).destination
    studio.disk.start =
      t.home ++ [entryName s (studio.registry.chainOf text).signatures theme] := by
    rw [destination_entryPath _ _ _ (noSlash_signatures hbuiltin), Cache.home, h.directory,
      h.sound.start, Site.home]
  have hthinned := removeFile_thinned hp now
  rcases hremove : removeFile studio.disk
    (studio.cache.entryPath s (studio.registry.chainOf text).signatures theme) now
    with ⟨n, d⟩
  rw [hremove] at hthinned
  unfold Studio.clear Cache.clear
  rw [hremove]
  exact h.thinned hapart rfl hthinned

theorem Tidy.invalidate_thinned (h : studio.Tidy t identities pending clock) (s : Source)
    (now : Instant) : Thinned t.home studio.disk (studio.invalidate s now).2.disk := by
  simp only [Studio.invalidate, Cache.clearSource]
  exact h.removeMatching_thinned rfl

theorem Tidy.invalidate (h : studio.Tidy t identities pending clock) (hapart : t.Apart identities)
    (s : Source) (now : Instant) : (studio.invalidate s now).2.Tidy t identities pending clock :=
  h.thinned hapart rfl (h.invalidate_thinned s now)

theorem Tidy.clearEntire (h : studio.Tidy t identities pending clock) (hapart : t.Apart identities)
    (now : Instant) : (studio.clearEntire now).2.Tidy t identities pending clock := by
  simp only [Studio.clearEntire, Cache.clearAll]
  exact h.thinned hapart rfl (h.removeMatching_thinned rfl)

theorem Tidy.overwrite (h : studio.Tidy t identities [] clock) (hapart : t.Apart identities)
    {identity : String} (hi : identity ∈ identities) (bytes : List UInt8)
    (hnow : clock.Before now) :
    (studio.overwrite t.root identity bytes now).Tidy t identities [] now := by
  unfold Studio.overwrite
  split
  · rename_i d hwrite
    exact h.overwritten hapart hi hnow hwrite fun m hm => absurd hm List.not_mem_nil
  · exact h.later hnow.le

theorem Tidy.renderLocal (h : studio.Tidy t identities [] clock) (hapart : t.Apart identities)
    (hfetch : fetch.IsLocal t.root) (hepoch : 0 ≤ now.nanoseconds)
    (hclock : clock.nanoseconds ≤ now.nanoseconds) {identity : String} (hi : identity ∈ identities)
    (text : String) (theme : Option Theme) :
    (studio.renderLocal fetch t.root identity text theme now).Tidy t identities [] now := by
  unfold Studio.renderLocal
  split
  · rename_i s hs
    cases hlocal : s.isRemote with
    | true => exact h.later hclock
    | false =>
      rcases hrender : studio.render fetch s text theme now with ⟨result, after⟩
      exact (h.render hapart hfetch hepoch hclock hi hs hlocal hrender).1
  · exact h.later hclock

/-- **An action keeps a studio tidy.** -/
theorem Tidy.act (h : studio.Tidy t identities [] clock) (hapart : t.Apart identities)
    (hfetch : fetch.IsLocal t.root) (hepoch : 0 ≤ now.nanoseconds) (hnow : clock.Before now)
    {action : Action} (hidentity : ∀ identity ∈ action.identity?, identity ∈ identities) :
    (studio.act fetch t.root now action).Tidy t identities [] now := by
  cases action with
  | overwrite identity bytes => exact h.overwrite hapart (hidentity identity rfl) bytes hnow
  | render identity text theme =>
    exact h.renderLocal hapart hfetch hepoch hnow.le (hidentity identity rfl) text theme
  | clear s text theme => exact (h.clear hapart s text theme now).later hnow.le
  | invalidate s => exact (h.invalidate hapart s now).later hnow.le
  | clearEntire => exact (h.clearEntire hapart now).later hnow.le

/-! ## Runs -/

/-- **A run of actions keeps a studio tidy,** if each of them comes a millisecond or more after the
one before it. Other times may follow. -/
theorem Tidy.run {actions : List (Instant × Action)} {rest : List Instant}
    (h : studio.Tidy t identities [] clock) (hapart : t.Apart identities)
    (hfetch : fetch.IsLocal t.root) (hepoch : ∀ a ∈ actions, 0 ≤ a.1.nanoseconds)
    (htimes : (clock :: (actions.map Prod.fst ++ rest)).Pairwise Instant.Before)
    (hidentities : ∀ a ∈ actions, ∀ identity ∈ a.2.identity?, identity ∈ identities) :
    ∃ before, (before :: rest).Pairwise Instant.Before ∧
      (studio.run fetch t.root actions).Tidy t identities [] before := by
  induction actions generalizing studio clock with
  | nil => exact ⟨clock, htimes, h⟩
  | cons a actions ih =>
    obtain ⟨hclock, hrest⟩ := List.pairwise_cons.mp htimes
    have hact := h.act hapart hfetch (hepoch a List.mem_cons_self) (hclock a.1 List.mem_cons_self)
      (hidentities a List.mem_cons_self)
    exact ih hact (fun b hb => hepoch b (List.mem_cons_of_mem a hb)) hrest
      fun b hb => hidentities b (List.mem_cons_of_mem a hb)

/-- **A run from an empty cache ends with a tidy studio,** at a time before those that follow. -/
theorem tidy_run {root : Path} (hfetch : fetch.IsLocal root)
    (hregistry : studio.registry = Registry.builtin) (hapart : (studio.site root).Apart identities)
    (hempty : ∀ name, studio.disk.seen ((studio.site root).home ++ [name]) = none)
    {actions : List (Instant × Action)} {rest : List Instant}
    (hidentities : ∀ a ∈ actions, ∀ identity ∈ a.2.identity?, identity ∈ identities)
    (htimes : (actions.map Prod.fst ++ rest).Pairwise Instant.Before)
    (hepoch : ∀ time ∈ actions.map Prod.fst ++ rest, 0 ≤ time.nanoseconds) :
    ∃ before, (before :: rest).Pairwise Instant.Before ∧
      (studio.run fetch root actions).Tidy (studio.site root) identities [] before := by
  -- No time is before the epoch, so a clock a millisecond before it may start the run.
  have htimes' : (⟨-1000000⟩ :: (actions.map Prod.fst ++ rest)).Pairwise Instant.Before := by
    refine List.pairwise_cons.mpr ⟨fun time htime => ?_, htimes⟩
    have hge := hepoch time htime
    simp only [Instant.Before]
    omega
  have hepoch' : ∀ a ∈ actions, 0 ≤ a.1.nanoseconds := fun a ha =>
    hepoch a.1 (List.mem_append_left _ (List.mem_map_of_mem ha))
  exact (Tidy.of_empty hregistry hempty).run hapart hfetch hepoch' htimes' hidentities

/-- **What is served is current.** After a run from an empty cache, a render of a local source that
answers with a path answers with that of a file which holds what the annotation's filters make of
the bytes that the source has. -/
theorem render_serves_current {fetch : Fetch} {root : Path} {studio : Studio}
    {identities : List String} (hcodec : studio.codec.ReadsBack) (hfetch : fetch.IsLocal root)
    (hregistry : studio.registry = Registry.builtin) (hapart : (studio.site root).Apart identities)
    (hempty : ∀ name, studio.disk.seen ((studio.site root).home ++ [name]) = none)
    {actions : List (Instant × Action)} {now : Instant}
    (hidentities : ∀ a ∈ actions, ∀ identity ∈ a.2.identity?, identity ∈ identities)
    (htimes : (actions.map Prod.fst ++ [now]).Pairwise Instant.Before)
    (hepoch : ∀ time ∈ actions.map Prod.fst ++ [now], 0 ≤ time.nanoseconds) {identity : String}
    (hi : identity ∈ identities) {s : Source}
    (hs : Vault.describe root (studio.run fetch root actions).disk ⟨identity⟩ = .ok s)
    (hlocal : s.isRemote = false) {text : String} {theme : Option Theme} {rendered : Rendered}
    {p : Path}
    (hrender : ((studio.run fetch root actions).render fetch s text theme now).1 = .ok rendered)
    (hp : rendered.path? = some p) :
    ∃ original, (studio.run fetch root actions).disk.read (root.join ⟨identity⟩) = .ok original ∧
      Serves studio.codec
        ((studio.run fetch root actions).render fetch s text theme now).2.disk p original s
        (Registry.builtin.chainOf text) theme := by
  obtain ⟨clock, hclock, htidy⟩ := tidy_run hfetch hregistry hapart hempty hidentities htimes hepoch
  have hnow := (List.pairwise_cons.mp hclock).1 now List.mem_cons_self
  have hepoch' : 0 ≤ now.nanoseconds := hepoch now (List.mem_append_right _ List.mem_cons_self)
  rcases hafter : (studio.run fetch root actions).render fetch s text theme now with ⟨result, after⟩
  rw [hafter] at hrender
  exact (htidy.render hapart hfetch hepoch' hnow.le hi hs hlocal hafter).2 hcodec rendered p hrender
    hp

/-! ## A studio with one source -/

/-- An entry with other bytes than those that a chain makes does not serve what it makes. -/
theorem not_serves_of_ne {d : Disk} {p : Path} {original entry made : List UInt8} {s : Source}
    {chain : Chain} {theme : Option Theme} (hentry : d.read p = .ok entry)
    (hmade : print .container chain s theme original = .ok made) (hne : made ≠ entry) :
    ¬ Serves .container d p original s chain theme := by
  rintro ⟨picture, frame, bytes, hdecode, happly, hbytes, hpicture⟩
  obtain rfl := Except.ok.inj (hentry.symm.trans hbytes)
  obtain ⟨made', hdevelop, hencode⟩ := print_ok.mp hmade
  rw [develop_ok.mpr ⟨picture, frame, hdecode, happly, rfl⟩] at hdevelop
  obtain rfl := Except.ok.inj hdevelop
  exact hne ((Codec.encode_container hencode).2.trans (Codec.decode_container hpicture).symm)


/-- A picture of one pixel. -/
def onePixel (c : Rgb UInt8) : Picture :=
  .ofRgb ⟨1, 1, #[c], rfl⟩

/-- A disk with nothing on it but the source `a.png`. -/
def oneSource : Disk :=
  ⟨Keyed.empty.insert ["a.png"] (.file (onePixel ⟨10, 20, 30⟩).toContainer ⟨0⟩), []⟩

theorem seen_oneSource {l : Location} (hnil : l ≠ []) (h : l ≠ ["a.png"]) :
    oneSource.seen l = none := by
  rw [seen_of_ne_nil _ hnil, oneSource, Keyed.get?_insert, if_neg (Ne.symm h)]
  rfl

/-- A studio with this source and a cache in a directory, after some actions. -/
def small (directory : Path) (actions : List (Instant × Action)) : Studio :=
  (Command.studioOf .container ⟨⟨""⟩, directory, false⟩ oneSource).run (Command.localFetch ⟨""⟩)
    ⟨""⟩ actions

/-- The source rendered in it. -/
def smallRender (directory : Path) (actions : List (Instant × Action)) (changed now : Instant) :
    Except RenderFault Rendered × Studio :=
  (small directory actions).render (Command.localFetch ⟨""⟩)
    (.atPath ⟨"a.png"⟩ changed) "@invert" none now

/-- The source is rendered and then written anew. -/
def renderThenWrite : List (Instant × Action) :=
  [(⟨1000000⟩, .render "a.png" "@invert" none),
    (⟨2000000⟩, .overwrite "a.png" (onePixel ⟨0, 0, 0⟩).toContainer)]

theorem home_small : ((small ⟨"c"⟩ []).site ⟨""⟩).home = ["c"] := by decide +kernel

theorem sourceAt_small : ((small ⟨"c"⟩ []).site ⟨""⟩).sourceAt "a.png" = ["a.png"] := by
  decide +kernel

theorem apart_small : ((small ⟨"c"⟩ []).site ⟨""⟩).Apart ["a.png"] := by
  have hwaypoints : waypoints ((small ⟨"c"⟩ []).site ⟨""⟩).start
    ((small ⟨"c"⟩ []).site ⟨""⟩).directory = [[], ["c"]] := by
    decide +kernel
  refine ⟨?_, ?_, ?_⟩
  · intro s c theme _
    rw [hwaypoints, Site.entryAt, home_small]
    simp
  · intro identity hi
    rw [List.mem_singleton.mp hi, sourceAt_small, home_small]
    decide
  · intro s s' hi hi' _
    rw [List.mem_singleton.mp hi, List.mem_singleton.mp hi']

theorem empty_small (name : String) :
    oneSource.seen (((small ⟨"c"⟩ []).site ⟨""⟩).home ++ [name]) = none := by
  rw [home_small]
  exact seen_oneSource (by simp) (by simp)

/-- After the source was written anew, its render is made from the new bytes. -/
theorem render_serves_current_overwritten :
    ∃ original, (small ⟨"c"⟩ renderThenWrite).disk.read (Path.join ⟨""⟩ ⟨"a.png"⟩) = .ok original ∧
      Serves .container (smallRender ⟨"c"⟩ renderThenWrite ⟨2000000⟩ ⟨3000000⟩).2.disk
        ⟨"c/a_7f071235805f_invert.png"⟩ original
        (.atPath ⟨"a.png"⟩ ⟨2000000⟩) (Registry.builtin.chainOf "@invert") none := by
  have hidentities : ∀ a ∈ renderThenWrite, ∀ identity ∈ a.2.identity?, identity ∈ ["a.png"] := by
    simp [renderThenWrite, Action.identity?]
  have htimes :
    (renderThenWrite.map Prod.fst ++ [(⟨3000000⟩ : Instant)]).Pairwise Instant.Before := by
      decide +kernel
  have hepoch :
    ∀ time ∈ renderThenWrite.map Prod.fst ++ [(⟨3000000⟩ : Instant)], 0 ≤ time.nanoseconds := by
    decide +kernel
  obtain ⟨hs, hrender⟩ :
      Vault.describe ⟨""⟩ (small ⟨"c"⟩ renderThenWrite).disk ⟨"a.png"⟩ =
        .ok (.atPath ⟨"a.png"⟩ ⟨2000000⟩) ∧
      (smallRender ⟨"c"⟩ renderThenWrite ⟨2000000⟩ ⟨3000000⟩).1 =
        .ok (.created ⟨"c/a_7f071235805f_invert.png"⟩) := by
    decide +kernel
  exact render_serves_current Codec.readsBack_container
    (isLocal_localFetch ⟨""⟩) rfl apart_small empty_small hidentities htimes hepoch
    List.mem_cons_self hs (by decide) hrender rfl

/-- The path of a cache that goes through the place of an entry and leaves it again. -/
def detour : Path := ⟨"c/a_7f071235805f_invert.png/.."⟩

/-- **The way to the cache matters.** The first render makes all directories that the path of the
cache names, one of them in the place of the entry. The entry cannot be stored then, and later
renders take the directory for it. -/
theorem cached_of_detour :
    (∀ name, oneSource.seen (((small detour []).site ⟨""⟩).home ++ [name]) = none) ∧
      ¬ ((small detour []).site ⟨""⟩).home <+: ((small detour []).site ⟨""⟩).sourceAt "a.png" ∧
      Vault.describe ⟨""⟩ (small detour [(⟨1000000⟩, .render "a.png" "@invert" none)]).disk
        ⟨"a.png"⟩ =
        .ok (.atPath ⟨"a.png"⟩ ⟨0⟩) ∧
      (smallRender detour [(⟨1000000⟩, .render "a.png" "@invert" none)] ⟨0⟩ ⟨2000000⟩).1 =
        .ok (.cached (detour.join ⟨"a_7f071235805f_invert.png"⟩)) ∧
      ∀ original, ¬ Serves .container
        (smallRender detour [(⟨1000000⟩, .render "a.png" "@invert" none)] ⟨0⟩ ⟨2000000⟩).2.disk
        (detour.join ⟨"a_7f071235805f_invert.png"⟩) original (.atPath ⟨"a.png"⟩ ⟨0⟩)
        (Registry.builtin.chainOf "@invert") none := by
  -- The path of the entry goes down into itself and up again: making its directories puts one where
  -- the entry should be.
  have hhome : ((small detour []).site ⟨""⟩).home = ["c"] := by decide +kernel
  have hsource : ((small detour []).site ⟨""⟩).sourceAt "a.png" = ["a.png"] := by decide +kernel
  obtain ⟨hs, hrender, hread⟩ :
      Vault.describe ⟨""⟩ (small detour [(⟨1000000⟩, .render "a.png" "@invert" none)]).disk
        ⟨"a.png"⟩ =
        .ok (.atPath ⟨"a.png"⟩ ⟨0⟩) ∧
      (smallRender detour [(⟨1000000⟩, .render "a.png" "@invert" none)] ⟨0⟩ ⟨2000000⟩).1 =
        .ok (.cached (detour.join ⟨"a_7f071235805f_invert.png"⟩)) ∧
      (smallRender detour [(⟨1000000⟩, .render "a.png" "@invert" none)] ⟨0⟩ ⟨2000000⟩).2.disk.read
        (detour.join ⟨"a_7f071235805f_invert.png"⟩) = .error .isADirectory := by
    decide +kernel
  refine ⟨?_, ?_, hs, hrender, ?_⟩
  · intro name
    rw [hhome]
    exact seen_oneSource (by simp) (by simp)
  · rw [hhome, hsource]
    decide
  · rintro original ⟨-, -, bytes, -, -, hbytes, -⟩
    rw [hread] at hbytes
    exact absurd hbytes (by simp)

/-- The source is rendered, and then written at the last time of all. -/
def renderThenWriteLast : List (Instant × Action) :=
  [(⟨1000000⟩, .render "a.png" "@invert" none),
    (.ofMilliseconds (2 ^ 64 - 1) 0, .overwrite "a.png" (onePixel ⟨0, 0, 0⟩).toContainer)]

/-- **So does the last time of all.** A source that was written then counts as one that never
changes, and its old entry stays current. -/
theorem cached_of_unchanging :
    (Source.atPath ⟨"a.png"⟩ (.ofMilliseconds (2 ^ 64 - 1) 0)).isRemote = true ∧
      (smallRender ⟨"c"⟩ renderThenWriteLast (.ofMilliseconds (2 ^ 64 - 1) 0)
        (.ofMilliseconds (2 ^ 64) 0)).1 =
        .ok (.cached ⟨"c/a_7f071235805f_invert.png"⟩) ∧
      ∀ original, (small ⟨"c"⟩ renderThenWriteLast).disk.read ⟨"a.png"⟩ = .ok original →
        ¬ Serves .container (smallRender ⟨"c"⟩ renderThenWriteLast (.ofMilliseconds (2 ^ 64 - 1) 0)
          (.ofMilliseconds (2 ^ 64) 0)).2.disk
          ⟨"c/a_7f071235805f_invert.png"⟩ original
            (.atPath ⟨"a.png"⟩ (.ofMilliseconds (2 ^ 64 - 1) 0))
          (Registry.builtin.chainOf "@invert") none := by
  obtain ⟨hrender, hsource, hentry⟩ :
      (smallRender ⟨"c"⟩ renderThenWriteLast (.ofMilliseconds (2 ^ 64 - 1) 0)
        (.ofMilliseconds (2 ^ 64) 0)).1 =
        .ok (.cached ⟨"c/a_7f071235805f_invert.png"⟩) ∧
      (small ⟨"c"⟩ renderThenWriteLast).disk.read ⟨"a.png"⟩ = .ok (onePixel ⟨0, 0, 0⟩).toContainer ∧
      (smallRender ⟨"c"⟩ renderThenWriteLast (.ofMilliseconds (2 ^ 64 - 1) 0)
        (.ofMilliseconds (2 ^ 64) 0)).2.disk.read
        ⟨"c/a_7f071235805f_invert.png"⟩ = .ok (onePixel ⟨245, 235, 225⟩).toContainer := by
    decide +kernel
  -- What a render of the current bytes would give is another picture than the one that is served.
  have hnew : print .container (Registry.builtin.chainOf "@invert")
      (.atPath ⟨"a.png"⟩ (.ofMilliseconds (2 ^ 64 - 1) 0)) none (onePixel ⟨0, 0, 0⟩).toContainer =
        .ok (onePixel ⟨255, 255, 255⟩).toContainer := by
    decide +kernel
  refine ⟨by decide +kernel, hrender, fun original horiginal => ?_⟩
  obtain rfl := Except.ok.inj (hsource.symm.trans horiginal)
  exact not_serves_of_ne hentry hnew (by decide +kernel)

end Studio

end AltRender

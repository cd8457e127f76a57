import AltRender.Proofs.Workshop.Scene

/-!
# `Proofs/Workshop/Overtaken` — a source written while it is rendered

A render reads its source and stores what it made of it some steps later. If the source is written
in between, the render is *overtaken*: its entry is newer than the source and so it counts as
current, but what it holds was made of the old bytes. Only what happens after the store can mend
this: the source written once more, or its entries removed. Whatever the order of the steps, nothing
out of date is served at the end of a scene if the render is not overtaken then
(`Scene.render_serves_unless_overtaken`).

The invariant of a scene (`Scene.Fits`) lets one entry be out of date, that of the render, and only
when the render is overtaken and has stored. Before the store all entries are as they were in a
studio without the render, and what the render is about to store was made from the bytes that the
source has, unless it is overtaken.
-/

set_option autoImplicit false

namespace AltRender

open AltRender.Disk AltRender.Cache AltRender.Text

/-! ## What is sound in a scene -/

/-- A studio that is tidy but for the entry of a job, which is found at its path. -/
structure Studio.TidyBut (t : Site) (identities : List String) (job : Job) (clock : Instant)
    (studio : Studio) : Prop where
  tidy : studio.Tidy t identities [job.entry] clock
  found : (studio.disk.seen (t.home ++ [job.entry])).isSome = true →
    studio.disk.find (t.directory.join ⟨job.entry⟩) = .ok (t.home ++ [job.entry])

/-- **A scene where the render has come to a stage:** all entries are up to date, but for that of a
render that is overtaken and over; and a picture that is to be stored was made from the bytes of the
source, unless the render is overtaken. -/
structure Scene.Fits (t : Site) (identities : List String) (job : Job) (clock : Instant)
    (stage : Stage) (x : Scene) : Prop where
  workers : x.shop.workers = [⟨job, stage⟩]
  entries : x.shop.studio.Tidy t identities [] clock ∨
    x.overtaken = true ∧ stage.isOver = true ∧ x.shop.studio.TidyBut t identities job clock
  loaded : ∀ lock contents, stage = .loaded lock contents →
    ∃ m : Making t identities, m.source = job.source ∧
      m.chain = Registry.builtin.chainOf job.text ∧ m.theme = job.theme ∧ m.contents = contents ∧
      ∃ bytes changed, x.shop.studio.disk.seen m.sourceAt = some (.file bytes changed) ∧
      (x.overtaken = true ∨ bytes = m.original)

namespace Scene

variable {t : Site} {identities : List String} {job : Job} {clock now : Instant} {stage : Stage}
  {x : Scene} {fetch : Fetch}

theorem Fits.isLoaded (h : x.Fits t identities job clock stage) : x.isLoaded = stage.isLoaded := by
  rw [Scene.isLoaded, h.workers, List.any_cons, List.any_nil, Bool.or_false]

theorem Fits.registry (h : x.Fits t identities job clock stage) :
    x.shop.studio.registry = Registry.builtin := by
  rcases h.entries with htidy | ⟨-, -, hbut⟩
  · exact htidy.registry
  · exact hbut.tidy.registry

theorem Fits.directory (h : x.Fits t identities job clock stage) :
    x.shop.studio.cache.absoluteDirectory = t.directory := by
  rcases h.entries with htidy | ⟨-, -, hbut⟩
  · exact htidy.directory
  · exact hbut.tidy.directory

/-- Before a render is over, all entries are up to date. -/
theorem Fits.tidy (h : x.Fits t identities job clock stage) (hover : stage.isOver = false) :
    x.shop.studio.Tidy t identities [] clock := by
  rcases h.entries with htidy | ⟨-, hover', -⟩
  · exact htidy
  · rw [hover] at hover'
    exact absurd hover' Bool.false_ne_true

theorem Fits.later (h : x.Fits t identities job clock stage)
    (hclock : clock.nanoseconds ≤ now.nanoseconds) : x.Fits t identities job now stage := by
  refine ⟨h.workers, ?_, h.loaded⟩
  rcases h.entries with htidy | ⟨hovertaken, hover, hbut⟩
  · exact .inl (htidy.later hclock)
  · exact .inr ⟨hovertaken, hover, hbut.tidy.later hclock, hbut.found⟩

/-- A step that changes no more than what is counted. -/
theorem Fits.quiet (h : x.Fits t identities job clock stage) {shop : Workshop} {stage' : Stage}
    (hworkers : shop.workers = [⟨job, stage'⟩]) (hloaded : stage'.isLoaded = false)
    (hover : stage.isOver = true → stage'.isOver = true)
    (halike : Studio.Alike x.shop.studio shop.studio) :
    Scene.Fits t identities job clock stage' ⟨shop, x.overtaken⟩ := by
  refine ⟨hworkers, ?_, ?_⟩
  · rcases h.entries with htidy | ⟨hovertaken, hover', hbut⟩
    · exact .inl (htidy.alike halike)
    · exact .inr ⟨hovertaken, hover hover', hbut.tidy.alike halike, halike.disk ▸ hbut.found⟩
  · rintro lock contents rfl
    exact absurd hloaded (by simp [Stage.isLoaded])

/-- The source is loaded: what is made of it is made from the bytes it has. -/
theorem Fits.load (h : x.Fits t identities job clock stage) (hfetch : fetch.IsLocal t.root)
    (hi : job.source.identity ∈ identities) (hlocal : job.source.isRemote = false) {lock : Nat}
    (hstage : stage = .missedAgain lock) {result : Except RenderFault (List UInt8)}
    {shop : Workshop} (hworkers : shop.workers = [⟨job, .ofLoaded lock result⟩])
    (hload :
      x.shop.studio.load fetch job.source (x.shop.chainOf job) job.theme = (result, shop.studio)) :
    Scene.Fits t identities job clock (.ofLoaded lock result) ⟨shop, x.overtaken⟩ := by
  have htidy := h.tidy (by rw [hstage]; rfl)
  have halike := x.shop.studio.alike_load fetch job.source (x.shop.chainOf job) job.theme
  rw [hload] at halike
  refine ⟨hworkers, .inl (htidy.alike halike), ?_⟩
  rintro lock' contents hloaded
  cases result with
  | error fault => exact absurd hloaded (by simp [Stage.ofLoaded])
  | ok made =>
    obtain ⟨-, rfl⟩ := Stage.loaded.inj hloaded
    obtain ⟨m, hsource, hchain, htheme, hcontents, -, changed, hfile⟩ :=
      htidy.making_of_load hfetch hi hlocal hload
    exact ⟨m, hsource, hchain.trans (h.registry ▸ rfl), htheme, hcontents, m.original, changed,
      halike.disk ▸ hfile,
      .inr rfl⟩

/-- A picture is stored: if it was overtaken in the meantime, its entry is the only one that is out
of date. -/
theorem Fits.store (h : x.Fits t identities job clock stage) (hapart : t.Apart identities)
    (hepoch : 0 ≤ now.nanoseconds) (hclock : clock.nanoseconds ≤ now.nanoseconds) {lock : Nat}
    {contents : List UInt8} (hstage : stage = .loaded lock contents) {stage' : Stage}
    (hloaded : stage'.isLoaded = false) (hover : stage'.isOver = true)
    {result : Except RenderFault Unit} {shop : Workshop} (hworkers : shop.workers = [⟨job, stage'⟩])
    (hstore : x.shop.studio.store (x.shop.pathOf job) contents now = (result, shop.studio)) :
    Scene.Fits t identities job now stage' ⟨shop, x.overtaken⟩ := by
  have htidy := h.tidy (by rw [hstage]; rfl)
  obtain ⟨m, hsource, hchain, htheme, hcontents, bytes, changed, hfile, hbytes⟩ :=
    h.loaded lock contents hstage
  have hname : m.name = job.entry := by
    rw [Making.name, hsource, hchain, htheme]
    rfl
  have hpath : x.shop.studio.cache.entryPath m.source m.chain.signatures m.theme =
    x.shop.pathOf job := by
    rw [Workshop.pathOf, Workshop.chainOf, h.registry, hsource, hchain, htheme]
  have hjoin : x.shop.pathOf job = t.directory.join ⟨job.entry⟩ := by
    rw [← hpath, Cache.entryPath, h.directory, ← hname]
    rfl
  rw [← hcontents] at hstore
  refine ⟨hworkers, ?_, ?_⟩
  · cases hovertaken : x.overtaken with
    | false =>
      -- The source has the bytes that the picture was made from, so the entry is up to date.
      have horiginal : bytes = m.original :=
        hbytes.resolve_left (by rw [hovertaken]; exact Bool.false_ne_true)
      rcases htidy.stored hapart m hepoch hclock ⟨bytes, changed, hfile,
        .inr horiginal⟩ (List.Subset.refl []) hpath hstore
        with ⟨fault, -, htidy'⟩ | ⟨-, htidy', -⟩
      · exact .inl htidy'
      · exact .inl htidy'
    | true =>
      -- The entry is newer than bytes that it was not made from. It is pending until something is
      -- done about it.
      rcases htidy.stored hapart m hepoch hclock ⟨bytes, changed, hfile,
        .inl (hname ▸ List.mem_singleton_self _)⟩
        (List.nil_subset [job.entry]) hpath hstore with ⟨fault, -, htidy'⟩ | ⟨-, htidy', hlook⟩
      · exact .inl htidy'
      · refine .inr ⟨rfl, hover, htidy', fun _ => ?_⟩
        obtain ⟨hfind, -⟩ := look_ok hlook
        have hplace := destination_entryPath x.shop.studio.cache shop.studio.disk.start m.source
          (noSlash_signatures m.builtin) m.theme
        rw [Cache.home, h.directory, htidy'.sound.start, hpath,
          show entryName _ _ _ = job.entry from hname] at hplace
        rw [htidy'.sound.start, hplace, hjoin] at hfind
        exact hfind
  · rintro lock contents rfl
    exact absurd hloaded (by simp [Stage.isLoaded])

/-- **A step of the render** fits the scene. -/
theorem Fits.step (h : x.Fits t identities job clock stage) (hapart : t.Apart identities)
    (hfetch : fetch.IsLocal t.root) (hi : job.source.identity ∈ identities)
    (hlocal : job.source.isRemote = false) (hepoch : 0 ≤ now.nanoseconds)
    (hclock : clock.nanoseconds ≤ now.nanoseconds) :
    ∃ stage', (x.after fetch t.root job now .step).Fits t identities job now stage' := by
  obtain ⟨stage', hworkers, hcases⟩ := @Workshop.step_cases fetch now _ _ _ h.workers
  refine ⟨stage', ?_⟩
  rcases hcases with ⟨hloaded, hover, halike⟩ | ⟨lock, result, hstage, rfl, hload⟩ |
    ⟨lock, contents, result, hstage, hloaded, hover, hstore⟩
  · exact (h.quiet hworkers hloaded hover halike).later hclock
  · exact (h.load hfetch hi hlocal hstage hworkers hload).later hclock
  · exact h.store hapart hepoch hclock hstage hloaded hover hworkers hstore

/-- **The source is written.** -/
theorem Fits.overwrite (h : x.Fits t identities job clock stage) (hapart : t.Apart identities)
    (hi : job.source.identity ∈ identities) (hnow : clock.Before now) (bytes : List UInt8) :
    (x.after fetch t.root job now (.overwrite bytes)).Fits t identities job now stage := by
  simp only [Scene.after]
  split
  · rename_i d hwrite
    rw [h.isLoaded]
    refine ⟨h.workers, .inl ?_, ?_⟩
    · -- All entries of the source are older than it now, the pending one among them.
      rcases h.entries with htidy | ⟨-, -, hbut⟩
      · exact htidy.overwritten hapart hi hnow hwrite fun m hm => absurd hm List.not_mem_nil
      · refine hbut.tidy.overwritten hapart hi hnow hwrite fun m hm => ?_
        exact (m.of_name_eq hapart hi (Chain.isBuiltin_chainOf job.text)
          (List.mem_singleton.mp hm)).1
    · -- A picture that is loaded but not stored has just been overtaken.
      intro lock contents hstage
      obtain ⟨m, hsource, hchain, htheme, hcontents, -⟩ := h.loaded lock contents hstage
      obtain ⟨haltered, -⟩ := write_ok hwrite
      have hself := haltered.seen_self
      have hstart := h.tidy (by rw [hstage]; rfl) |>.sound.start
      have hplace : m.sourceAt =
        (t.root.join ⟨job.source.identity⟩).destination x.shop.studio.disk.start := by
        rw [Making.sourceAt, hsource, hstart, Site.sourceAt]
      exact ⟨m, hsource, hchain, htheme, hcontents, bytes, now, hplace ▸ hself,
        .inl (by rw [hstage]; rfl)⟩
  · exact h.later hnow.le

/-- The entry is among those that are removed. -/
theorem removes_entry {studio : Studio} (h : studio.TidyBut t identities job clock)
    (hdirectory : t.directory.text.toList ≠ []) {bytes : List UInt8} {written : Instant} :
    (studio.invalidate job.source now).2.disk.seen (t.home ++ [job.entry]) ≠
      some (.file bytes written) := by
  have hbuiltin := Chain.isBuiltin_chainOf job.text
  have hname : PlainName job.entry := plainName_entryName _ (noSlash_signatures hbuiltin) _
  have hhome : studio.cache.absoluteDirectory.destination studio.disk.start = t.home := by
    rw [h.tidy.directory, h.tidy.sound.start, Site.home]
  rw [← h.tidy.directory] at hdirectory
  have hfound := h.found
  rw [← h.tidy.directory] at hfound
  simp only [Studio.invalidate, Cache.clearSource]
  exact removeMatching_removes hdirectory hhome h.tidy.sound.plain hname
    (occursIn_fingerprint _ _ _) hfound

/-- **The entries of the source are removed.** -/
theorem Fits.invalidate (h : x.Fits t identities job clock stage) (hapart : t.Apart identities)
    (hdirectory : t.directory.text.toList ≠ []) (hclock : clock.nanoseconds ≤ now.nanoseconds) :
    (x.after fetch t.root job now .invalidate).Fits t identities job now stage := by
  refine ⟨h.workers, .inl ?_, ?_⟩
  · rcases h.entries with htidy | ⟨-, -, hbut⟩
    · exact (htidy.invalidate hapart job.source now).later hclock
    · have htidy := (hbut.tidy.invalidate hapart job.source now).later hclock
      refine ⟨htidy.registry, htidy.codec, htidy.directory,
        htidy.sound.settled fun name hmem bytes written => ?_⟩
      rw [List.mem_singleton.mp hmem]
      exact removes_entry hbut hdirectory
  · intro lock contents hstage
    obtain ⟨m, hsource, hchain, htheme, hcontents, bytes, changed, hfile, hbytes⟩ :=
      h.loaded lock contents hstage
    have hthinned := (h.tidy (by rw [hstage]; rfl)).invalidate_thinned job.source now
    refine ⟨m, hsource, hchain, htheme, hcontents, bytes, changed, ?_, ?_⟩
    · rw [← hfile]
      exact hthinned.seen_of_outside (hapart.sourceAt_ne m.mem)
    · rw [Scene.after, h.isLoaded, hstage]
      simpa [Stage.isLoaded] using hbytes

/-- **An event fits the scene.** -/
theorem Fits.after (h : x.Fits t identities job clock stage) (hapart : t.Apart identities)
    (hfetch : fetch.IsLocal t.root) (hi : job.source.identity ∈ identities)
    (hlocal : job.source.isRemote = false) (hdirectory : t.directory.text.toList ≠ [])
    (hepoch : 0 ≤ now.nanoseconds) (hnow : clock.Before now) (event : Event) :
    ∃ stage', (x.after fetch t.root job now event).Fits t identities job now stage' := by
  cases event with
  | step => exact h.step hapart hfetch hi hlocal hepoch hnow.le
  | overwrite bytes => exact ⟨stage, h.overwrite hapart hi hnow bytes⟩
  | invalidate => exact ⟨stage, h.invalidate hapart hdirectory hnow.le⟩

/-- **A scene fits after all events,** if each of them comes a millisecond or more after the one
before it. -/
theorem Fits.play {events : List (Instant × Event)} (h : x.Fits t identities job clock stage)
    (hapart : t.Apart identities) (hfetch : fetch.IsLocal t.root)
    (hi : job.source.identity ∈ identities) (hlocal : job.source.isRemote = false)
    (hdirectory : t.directory.text.toList ≠ []) (hepoch : ∀ e ∈ events, 0 ≤ e.1.nanoseconds)
    (htimes : (clock :: events.map Prod.fst ++ [now]).Pairwise Instant.Before) :
    ∃ before stage', before.Before now ∧
      (x.play fetch t.root job events).Fits t identities job before stage' := by
  induction events generalizing x clock stage with
  | nil =>
    obtain ⟨hclock, -⟩ := List.pairwise_cons.mp htimes
    exact ⟨clock, stage, hclock now List.mem_cons_self, h⟩
  | cons e rest ih =>
    obtain ⟨hclock, hrest⟩ := List.pairwise_cons.mp htimes
    obtain ⟨stage', hafter⟩ :=
      h.after hapart hfetch hi hlocal hdirectory (hepoch e List.mem_cons_self)
      (hclock e.1 List.mem_cons_self) e.2
    exact ih hafter (fun e' he' => hepoch e' (List.mem_cons_of_mem e he')) hrest

/-- **Nothing out of date is served after a scene,** if the render is not overtaken at its end: a
render of the same source, described anew, that answers with a path answers with that of a file
which holds what the filters make of the bytes that the source has then. The scene may follow any
run from an empty cache. -/
theorem render_serves_unless_overtaken {fetch : Fetch} {root : Path} {studio : Studio}
    {identities : List String} (hcodec : studio.codec.ReadsBack) (hfetch : fetch.IsLocal root)
    (hregistry : studio.registry = Registry.builtin) (hapart : (studio.site root).Apart identities)
    (hempty : ∀ name, studio.disk.seen ((studio.site root).home ++ [name]) = none)
    (hdirectory : studio.cache.absoluteDirectory.text.toList ≠ [])
    {actions : List (Instant × Studio.Action)} {events : List (Instant × Event)} {now : Instant}
    (hidentities : ∀ a ∈ actions, ∀ identity ∈ a.2.identity?, identity ∈ identities)
    (htimes : (actions.map Prod.fst ++ (events.map Prod.fst ++ [now])).Pairwise Instant.Before)
    (hepoch : ∀ time ∈ actions.map Prod.fst ++ (events.map Prod.fst ++ [now]), 0 ≤ time.nanoseconds)
    {job : Job} (hi : job.source.identity ∈ identities) (hlocal : job.source.isRemote = false)
    {x : Scene} (hx : (ofJob (studio.run fetch root actions) job).play fetch root job events = x)
    (hovertaken : x.overtaken = false) {s : Source}
    (hs : Vault.describe root x.shop.studio.disk ⟨job.source.identity⟩ = .ok s)
    (hslocal : s.isRemote = false) {rendered : Rendered} {p : Path}
    (hrender : (x.shop.studio.render fetch s job.text job.theme now).1 = .ok rendered)
    (hp : rendered.path? = some p) :
    ∃ original, x.shop.studio.disk.read (root.join ⟨job.source.identity⟩) = .ok original ∧
      Serves studio.codec (x.shop.studio.render fetch s job.text job.theme now).2.disk p original s
        (Registry.builtin.chainOf job.text) job.theme := by
  obtain ⟨clock, hclock, htidy⟩ :=
    Studio.tidy_run hfetch hregistry hapart hempty hidentities htimes hepoch
  have hstart : (ofJob (studio.run fetch root actions) job).Fits
    (studio.site root) identities job clock .begun :=
    ⟨rfl, .inl htidy, fun lock contents hstage => absurd hstage (by simp)⟩
  have hepoch' : ∀ time ∈ events.map Prod.fst ++ [now], 0 ≤ time.nanoseconds := fun time htime =>
    hepoch time (List.mem_append_right _ htime)
  obtain ⟨before, stage, hnow, hfits⟩ := hstart.play hapart hfetch hi hlocal hdirectory
    (fun e he => hepoch' e.1 (List.mem_append_left _ (List.mem_map_of_mem he))) hclock
  rw [show (ofJob (studio.run fetch root actions) job).play fetch
    (studio.site root).root job events = x from hx] at hfits
  -- The last event may have left an entry that is out of date, and then the scene says that it was
  -- overtaken.
  have htidy' : x.shop.studio.Tidy (studio.site root) identities [] before := by
    rcases hfits.entries with htidy' | ⟨hovertaken', -, -⟩
    · exact htidy'
    · rw [hovertaken] at hovertaken'
      exact absurd hovertaken' Bool.false_ne_true
  rcases hafter : x.shop.studio.render fetch s job.text job.theme now with ⟨result, after⟩
  rw [hafter] at hrender
  exact (htidy'.render hapart hfetch
    (hepoch' now (List.mem_append_right _ List.mem_cons_self)) hnow.le hi hs hslocal
    hafter).2 hcodec rendered p hrender hp

/-! ## A render of one source -/

/-- The source of a small studio, to be inverted. -/
def smallJob : Job := ⟨.atPath ⟨"a.png"⟩ ⟨0⟩, "@invert", none⟩

/-- The eight steps of a render, and the source written after some of them. -/
def writeAfter (steps : Nat) : List (Instant × Event) :=
  let events :=
    List.replicate steps Event.step ++ .overwrite (Studio.onePixel ⟨0, 0, 0⟩).toContainer ::
    List.replicate (8 - steps) Event.step
  events.mapIdx fun i event => (⟨1000000 * (i + 1)⟩, event)

/-- A scene with the small studio. -/
def small (events : List (Instant × Event)) : Scene :=
  (ofJob (Studio.small ⟨"c"⟩ []) smallJob).play (Command.localFetch ⟨""⟩) ⟨""⟩ smallJob events

/-- The source rendered after the scene. -/
def smallRender (events : List (Instant × Event)) (changed : Instant) :
    Except RenderFault Rendered × Studio :=
  (small events).shop.studio.render (Command.localFetch ⟨""⟩)
    (.atPath ⟨"a.png"⟩ changed) "@invert" none ⟨10000000⟩

/-- A source that is written just before the load does no harm. -/
theorem render_serves_unless_overtaken_writeAfter_four :
    ∃ original, (small (writeAfter 4)).shop.studio.disk.read (Path.join ⟨""⟩ ⟨"a.png"⟩) =
      .ok original ∧
      Serves .container (smallRender (writeAfter 4) ⟨5000000⟩).2.disk
        ⟨"c/a_7f071235805f_invert.png"⟩ original
        (.atPath ⟨"a.png"⟩ ⟨5000000⟩) (Registry.builtin.chainOf "@invert") none := by
  have htimes :
    ((writeAfter 4).map Prod.fst ++ [(⟨10000000⟩ : Instant)]).Pairwise Instant.Before := by
      decide +kernel
  have hepoch :
    ∀ time ∈ (writeAfter 4).map Prod.fst ++ [(⟨10000000⟩ : Instant)], 0 ≤ time.nanoseconds := by
    decide +kernel
  obtain ⟨hovertaken, hs, hrender⟩ : (small (writeAfter 4)).overtaken = false ∧
      Vault.describe ⟨""⟩ (small (writeAfter 4)).shop.studio.disk ⟨"a.png"⟩ =
        .ok (.atPath ⟨"a.png"⟩ ⟨5000000⟩) ∧
      (smallRender (writeAfter 4) ⟨5000000⟩).1 = .ok (.cached ⟨"c/a_7f071235805f_invert.png"⟩) := by
    decide +kernel
  have hdirectory : (Studio.small ⟨"c"⟩ []).cache.absoluteDirectory.text.toList ≠ [] := by
    decide +kernel
  exact @render_serves_unless_overtaken _ _ _ _ Codec.readsBack_container
    (Studio.isLocal_localFetch ⟨""⟩) rfl Studio.apart_small Studio.empty_small
    hdirectory [] (writeAfter 4) _ (fun a ha => absurd ha List.not_mem_nil) htimes hepoch smallJob
    List.mem_cons_self
    (by decide) _ rfl hovertaken _ hs (by decide) _ _ hrender rfl

/-- **A source that is written between the load and the store is lost on the cache.** All steps are
made, nothing fails, and what is served from then on was made of the old bytes. -/
theorem stale_after_writeAfter_five :
    ((writeAfter 5).map Prod.fst ++ [(⟨10000000⟩ : Instant)]).Pairwise Instant.Before ∧
      (small (writeAfter 5)).shop.results = [.ok (.created ⟨"c/a_7f071235805f_invert.png"⟩)] ∧
      Vault.describe ⟨""⟩ (small (writeAfter 5)).shop.studio.disk ⟨"a.png"⟩ =
        .ok (.atPath ⟨"a.png"⟩ ⟨6000000⟩) ∧
      (smallRender (writeAfter 5) ⟨6000000⟩).1 = .ok (.cached ⟨"c/a_7f071235805f_invert.png"⟩) ∧
      ∀ original, (small (writeAfter 5)).shop.studio.disk.read ⟨"a.png"⟩ = .ok original →
        ¬ Serves .container (smallRender (writeAfter 5) ⟨6000000⟩).2.disk
          ⟨"c/a_7f071235805f_invert.png"⟩ original
          (.atPath ⟨"a.png"⟩ ⟨6000000⟩) (Registry.builtin.chainOf "@invert") none := by
  obtain ⟨hresults, hs, hrender, hsource, hentry⟩ :
      (small (writeAfter 5)).shop.results = [.ok (.created ⟨"c/a_7f071235805f_invert.png"⟩)] ∧
      Vault.describe ⟨""⟩ (small (writeAfter 5)).shop.studio.disk ⟨"a.png"⟩ =
        .ok (.atPath ⟨"a.png"⟩ ⟨6000000⟩) ∧
      (smallRender (writeAfter 5) ⟨6000000⟩).1 = .ok (.cached ⟨"c/a_7f071235805f_invert.png"⟩) ∧
      (small (writeAfter 5)).shop.studio.disk.read ⟨"a.png"⟩ =
        .ok (Studio.onePixel ⟨0, 0, 0⟩).toContainer ∧
      (smallRender (writeAfter 5) ⟨6000000⟩).2.disk.read ⟨"c/a_7f071235805f_invert.png"⟩ =
        .ok (Studio.onePixel ⟨245, 235, 225⟩).toContainer := by
    decide +kernel
  -- The entry is that of the old picture, stamped after the new one came.
  refine ⟨by decide +kernel, hresults, hs, hrender, ?_⟩
  intro original horiginal
  have hnew :
    Studio.print .container (Registry.builtin.chainOf "@invert") (.atPath ⟨"a.png"⟩ ⟨6000000⟩) none
      (Studio.onePixel ⟨0, 0, 0⟩).toContainer =
        .ok (Studio.onePixel ⟨255, 255, 255⟩).toContainer := by
    decide +kernel
  obtain rfl := Except.ok.inj (hsource.symm.trans horiginal)
  exact Studio.not_serves_of_ne hentry hnew (by decide +kernel)

end Scene

end AltRender

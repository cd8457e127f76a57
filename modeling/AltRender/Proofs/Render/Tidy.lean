import AltRender.Proofs.Render.Sound
import AltRender.Proofs.Render.Ways

/-!
# `Proofs/Render/Tidy` — a render keeps the cache sound

A studio is *tidy* at a site if it has the built-in filters, the codec and the directory of the
site, and a sound cache (`Studio.Tidy`). Each part of a render keeps it so. The checks and the load
do not touch the disk (`Alike`), and what is stored was made from bytes that its source has
(`Tidy.making_of_load`, `Tidy.stored`). So a whole render keeps a studio tidy, whatever it answers.

What a render answers with serves what the source's bytes make at that moment (`Tidy.render`), if
the codec reads back what it wrote: an entry that was found is current, and one that was made has
just been written.
-/

set_option autoImplicit false

namespace AltRender

open AltRender.Disk AltRender.Cache

/-- Whether sources that are not remote are read from below a root. What a network answers is left
open. -/
def Fetch.IsLocal (fetch : Fetch) (root : Path) : Prop :=
  ∀ d s, s.isRemote = false → fetch d s = Vault.read root d s.identity

theorem Vault.read_ok {root : Path} {d : Disk} {identity : String} {bytes : List UInt8}
    (h : Vault.read root d identity = .ok bytes) :
    Vault.isConfined ⟨identity⟩ = true ∧ d.read (root.join ⟨identity⟩) = .ok bytes := by
  unfold Vault.read at h
  split at h
  · rename_i hconfined
    cases hread : d.read (root.join ⟨identity⟩) with
    | error e =>
      simp only [hread] at h
      exact absurd h (by simp [Except.mapError])
    | ok bytes' =>
      simp only [hread] at h
      obtain rfl := Except.ok.inj h
      exact ⟨hconfined, rfl⟩
  · exact absurd h (by simp)

namespace Studio

/-- Where the sources and the entries of a studio are. -/
def site (studio : Studio) (root : Path) : Site :=
  ⟨studio.codec, root, studio.cache.absoluteDirectory, studio.disk.start⟩

/-! ## The parts of a render -/

theorem load_ok {fetch : Fetch} {studio after : Studio} {s : Source} {chain : Chain}
    {theme : Option Theme} {contents : List UInt8}
    (h : studio.load fetch s chain theme = (.ok contents, after)) :
    ∃ bytes, fetch studio.disk s = .ok bytes ∧
      print studio.codec chain s theme bytes = .ok contents := by
  unfold load at h
  split at h
  · exact absurd (Prod.mk.inj h).1 (by simp)
  · rename_i bytes hfetch
    exact ⟨bytes, hfetch, (Prod.mk.inj h).1⟩

theorem absoluteDirectory_store (studio : Studio) (path : Path) (contents : List UInt8)
    (now : Instant) :
    (studio.store path contents now).2.cache.absoluteDirectory =
      studio.cache.absoluteDirectory := by
  simp only [store, Cache.write]
  split
  · rfl
  · split <;> rfl

/-- **One studio is another but for what it has counted.** -/
structure Alike (studio after : Studio) : Prop where
  registry : after.registry = studio.registry
  codec : after.codec = studio.codec
  directory : after.cache.absoluteDirectory = studio.cache.absoluteDirectory
  disk : after.disk = studio.disk

theorem Alike.refl (studio : Studio) : Alike studio studio :=
  ⟨rfl, rfl, rfl, rfl⟩

theorem Alike.trans {studio middle after : Studio} (h : Alike studio middle)
    (h' : Alike middle after) : Alike studio after :=
  ⟨h'.registry.trans h.registry, h'.codec.trans h.codec, h'.directory.trans h.directory,
    h'.disk.trans h.disk⟩

theorem Alike.entryPath {studio after : Studio} (h : Alike studio after) :
    after.cache.entryPath = studio.cache.entryPath := by
  funext s signatures theme
  rw [Cache.entryPath, Cache.entryPath, h.directory]

theorem alike_check (studio : Studio) (s : Source) (signatures : List String)
    (theme : Option Theme) :
    Alike studio (studio.check s signatures theme).2 := by
  refine ⟨studio.registry_check s signatures theme, studio.codec_check s signatures theme, ?_, ?_⟩
  · simp only [check, Cache.check, Cache.absoluteDirectory]
  · simp only [check]

theorem alike_load (fetch : Fetch) (studio : Studio) (s : Source) (chain : Chain)
    (theme : Option Theme) : Alike studio (studio.load fetch s chain theme).2 := by
  refine ⟨studio.registry_load fetch s chain theme, studio.codec_load fetch s chain theme, ?_, ?_⟩
  · rw [studio.cache_load fetch s chain theme]
  · unfold load
    split <;> rfl

theorem isCurrent_of_check {studio after : Studio} {s : Source} {signatures : List String}
    {theme : Option Theme} {hit : Bool} (h : studio.check s signatures theme = (hit, after)) :
    studio.cache.isCurrent studio.disk s signatures theme = hit := by
  simp only [check, Cache.check] at h
  exact (Prod.mk.inj h).1

end Studio

/-- **A studio with the built-in filters whose cache is sound.** -/
structure Studio.Tidy (t : Site) (identities pending : List String) (clock : Instant)
    (studio : Studio) : Prop where
  registry : studio.registry = Registry.builtin
  codec : studio.codec = t.codec
  directory : studio.cache.absoluteDirectory = t.directory
  sound : Sound t identities pending clock studio.disk

namespace Studio

variable {t : Site} {identities pending : List String} {clock now : Instant} {fetch : Fetch}
  {studio after : Studio}

theorem Tidy.later (h : studio.Tidy t identities pending clock)
    (hnow : clock.nanoseconds ≤ now.nanoseconds) : studio.Tidy t identities pending now :=
  ⟨h.registry, h.codec, h.directory, h.sound.later hnow⟩

theorem Tidy.alike (h : studio.Tidy t identities pending clock) (halike : Alike studio after) :
    after.Tidy t identities pending clock :=
  ⟨halike.registry.trans h.registry, halike.codec.trans h.codec, halike.directory.trans h.directory,
    halike.disk ▸ h.sound⟩

/-- What is loaded from a local source has a history. -/
theorem Tidy.making_of_load (h : studio.Tidy t identities pending clock)
    (hfetch : fetch.IsLocal t.root) {s : Source} (hi : s.identity ∈ identities)
    (hlocal : s.isRemote = false) {text : String} {theme : Option Theme} {contents : List UInt8}
    (hload : studio.load fetch s (studio.registry.chainOf text) theme = (.ok contents, after)) :
    ∃ m : Making t identities, m.source = s ∧ m.chain = studio.registry.chainOf text ∧
      m.theme = theme ∧
      m.contents = contents ∧ studio.disk.read (t.root.join ⟨s.identity⟩) = .ok m.original ∧
      ∃ changed, studio.disk.seen m.sourceAt = some (.file m.original changed) := by
  obtain ⟨bytes, hbytes, hprint⟩ := load_ok hload
  rw [hfetch _ _ hlocal] at hbytes
  obtain ⟨hconfined, hread⟩ := Vault.read_ok hbytes
  obtain ⟨changed, -, hfile⟩ := read_ok hread
  rw [h.sound.start] at hfile
  have hbuiltin : (studio.registry.chainOf text).IsBuiltin :=
    h.registry ▸ Chain.isBuiltin_chainOf text
  exact ⟨⟨s, _, theme, bytes, contents, hi, hconfined, hbuiltin, h.codec ▸ hprint⟩, rfl, rfl, rfl,
    rfl, hread, changed, hfile⟩

/-- **Storing what was made keeps a studio tidy:** the entry is there, or something went wrong and
nothing more is pending. -/
theorem Tidy.stored (h : studio.Tidy t identities pending clock) (hapart : t.Apart identities)
    (m : Making t identities) (hepoch : 0 ≤ now.nanoseconds)
    (hclock : clock.nanoseconds ≤ now.nanoseconds) {pending' : List String}
    (hsource : ∃ bytes changed, studio.disk.seen m.sourceAt = some (.file bytes changed) ∧
      (m.name ∈ pending' ∨ bytes = m.original))
    (hpending : pending ⊆ pending') {path : Path}
    (hpath : studio.cache.entryPath m.source m.chain.signatures m.theme = path)
    {result : Except RenderFault Unit}
    (hstore : studio.store path m.contents now = (result, after)) :
    (∃ fault, result = .error fault ∧ after.Tidy t identities pending now) ∨
      result = .ok () ∧ after.Tidy t identities pending' now ∧
        after.disk.look path = .ok (.file m.contents now) := by
  subst hpath
  have hregistry := studio.registry_store
    (studio.cache.entryPath m.source m.chain.signatures m.theme) m.contents now
  have hcodec :=
    studio.codec_store (studio.cache.entryPath m.source m.chain.signatures m.theme) m.contents now
  have hdirectory :=
    studio.absoluteDirectory_store (studio.cache.entryPath m.source m.chain.signatures m.theme)
    m.contents now
  rw [hstore] at hregistry hcodec hdirectory
  replace hregistry := hregistry.trans h.registry
  replace hcodec := hcodec.trans h.codec
  replace hdirectory := hdirectory.trans h.directory
  obtain ⟨bytes, changed, hfile, hstate⟩ := hsource
  obtain ⟨d₁, hgrown, hwrite⟩ :=
    studio.cache.write_cases studio.disk m.source (noSlash_signatures m.builtin) m.theme
    m.contents now
  rw [h.directory, h.sound.start] at hgrown
  have hsound₁ := h.sound.grown hapart hgrown
  simp only [Studio.store] at hstore
  -- A write that fails may have made directories, but they are on the way to the cache and not in
  -- it.
  rcases hwrite with ⟨fault, hwrite⟩ | ⟨c₂, d₂, hinstall, hwrite⟩
  · rw [hwrite] at hstore
    obtain ⟨rfl, rfl⟩ := Prod.mk.inj hstore
    exact .inl ⟨_, rfl, hregistry, hcodec, hdirectory, hsound₁.later hclock⟩
  · rw [hwrite] at hstore
    obtain ⟨rfl, rfl⟩ := Prod.mk.inj hstore
    obtain ⟨haltered, -⟩ := install_ok hinstall
    rw [destination_entryPath _ _ _ (noSlash_signatures m.builtin), Cache.home, h.directory,
      hsound₁.start] at haltered
    have hsound₂ := hsound₁.installed hapart m haltered hepoch hclock
      ⟨bytes, changed, hgrown.kept _ _ hfile, hstate⟩ hpending
    exact .inr ⟨rfl, ⟨hregistry, hcodec, hdirectory, hsound₂⟩, look_of_install hinstall⟩

/-- What is made and then written serves what the source's bytes make. -/
theorem Tidy.written (h : studio.Tidy t identities [] clock) (hapart : t.Apart identities)
    (hfetch : fetch.IsLocal t.root) (hepoch : 0 ≤ now.nanoseconds)
    (hclock : clock.nanoseconds ≤ now.nanoseconds) {identity : String} (hi : identity ∈ identities)
    {s : Source} (hs : Vault.describe t.root studio.disk ⟨identity⟩ = .ok s)
    (hlocal : s.isRemote = false) {text : String} {theme : Option Theme} {contents : List UInt8}
    (hmade :
      made studio.codec fetch studio.disk s (Registry.builtin.chainOf text) theme = .ok contents)
    {result : Except Fault Unit} {c : Cache} {d : Disk}
    (hwrite :
      Writer.atOnce.write studio.afterMiss.cache studio.disk
        (studio.cache.entryPath s (Registry.builtin.chainOf text).signatures theme) contents now =
          (result, c, d)) :
    ({ studio.afterMiss with cache := c, disk := d }).Tidy t identities [] now ∧
    (t.codec.ReadsBack → result = .ok () →
      ∃ original, studio.disk.read (t.root.join ⟨identity⟩) = .ok original ∧
        Serves t.codec d
          (studio.cache.entryPath s (Registry.builtin.chainOf text).signatures theme) original s
          (Registry.builtin.chainOf text) theme) := by
  obtain rfl : s.identity = identity := by
    obtain ⟨item, -, rfl⟩ := describe_ok hs
    rfl
  have hload := load_eq fetch studio s (studio.registry.chainOf text) theme
  rw [h.registry, hmade] at hload
  obtain ⟨m, rfl, hchain, rfl, rfl, horiginal, changed, hfile⟩ :=
    h.making_of_load hfetch hi hlocal (h.registry ▸ hload)
  rw [h.registry] at hchain
  rw [Writer.write, ← hchain] at hwrite
  have hstore : studio.afterMiss.store
    (studio.cache.entryPath m.source m.chain.signatures m.theme) m.contents now =
      (result.mapError (.cacheWrite (studio.cache.entryPath m.source m.chain.signatures m.theme)),
        { studio.afterMiss with cache := c, disk := d }) := by
    simp only [store]
    rw [show studio.afterMiss.disk = studio.disk from rfl, hwrite]
  -- Nothing happens to the source between the load and the store, so its bytes are those the
  -- picture was made from.
  have hmiss : studio.afterMiss.Tidy t identities [] clock := h.alike ⟨rfl, rfl, rfl, rfl⟩
  rcases hmiss.stored hapart m hepoch hclock ⟨m.original, changed, hfile,
    .inr rfl⟩ (List.Subset.refl []) rfl hstore with
    ⟨fault, hfault, htidy⟩ | ⟨-, htidy, hlook⟩
  · refine ⟨htidy, ?_⟩
    rintro - rfl
    exact absurd hfault (by simp [Except.mapError])
  · have hprint := m.printed
    rw [← hchain]
    exact ⟨htidy, fun hcodec _ => ⟨m.original, horiginal,
      serves_of_look hcodec (hchain ▸ Chain.isBuiltin_chainOf text) hprint hlook⟩⟩

/-- **A render keeps a studio tidy,** and what it answers with serves what the source's bytes make
at that moment. -/
theorem Tidy.render (h : studio.Tidy t identities [] clock) (hapart : t.Apart identities)
    (hfetch : fetch.IsLocal t.root) (hepoch : 0 ≤ now.nanoseconds)
    (hclock : clock.nanoseconds ≤ now.nanoseconds) {identity : String} (hi : identity ∈ identities)
    {s : Source} (hs : Vault.describe t.root studio.disk ⟨identity⟩ = .ok s)
    (hlocal : s.isRemote = false) {text : String} {theme : Option Theme}
    {result : Except RenderFault Rendered}
    (hrender : studio.render fetch s text theme now = (result, after)) :
    after.Tidy t identities [] now ∧
    (t.codec.ReadsBack → ∀ rendered p, result = .ok rendered → rendered.path? = some p →
      ∃ original, studio.disk.read (t.root.join ⟨identity⟩) = .ok original ∧
        Serves t.codec after.disk p original s (Registry.builtin.chainOf text) theme) := by
  have hgoes := renderBy_goes .atOnce fetch studio s text theme now
  rw [renderBy_atOnce, hrender, h.registry] at hgoes
  -- By the way the render goes; only the one that writes changes the disk, and what it wrote is new
  -- there.
  cases hgoes with
  | idle =>
    refine ⟨h.later hclock, fun hcodec rendered p hresult hp => ?_⟩
    obtain rfl := Except.ok.inj hresult
    exact absurd hp (by simp [Rendered.path?])
  | hit _ hcurrent =>
    refine ⟨(h.later hclock).alike ⟨rfl, rfl, rfl, rfl⟩, fun hcodec rendered p hresult hp => ?_⟩
    obtain rfl := Except.ok.inj hresult
    obtain rfl := Option.some.inj hp
    exact h.sound.serves_of_isCurrent hcodec hapart h.directory hi hs hlocal
      (Chain.isBuiltin_chainOf text) hcurrent
      List.not_mem_nil
  | unmade =>
    exact ⟨(h.later hclock).alike ⟨rfl, rfl, rfl, rfl⟩,
      fun _ rendered p hresult => absurd hresult (by simp)⟩
  | unwritten _ _ hmade hwrite =>
    exact ⟨(h.written hapart hfetch hepoch hclock hi hs hlocal hmade hwrite).1,
      fun _ rendered p hresult => absurd hresult (by simp)⟩
  | written _ _ hmade hwrite =>
    obtain ⟨htidy, hserves⟩ := h.written hapart hfetch hepoch hclock hi hs hlocal hmade hwrite
    refine ⟨htidy, fun hcodec rendered p hresult hp => ?_⟩
    obtain rfl := Except.ok.inj hresult
    obtain rfl := Option.some.inj hp
    exact hserves hcodec rfl

end Studio

end AltRender

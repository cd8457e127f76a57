import AltRender.Proofs.Cache.Staging
import AltRender.Proofs.Render.Run
import AltRender.Proofs.Render.Ways

/-!
# `Proofs/Render/Lasting` — an entry that was made stays a hit

An entry goes out of date only when its source changes. As long as a source is described as it was,
and no other source has its fingerprint, nothing that is rendered touches its entries: a render of
the same entry finds it, and a render of any other writes under another name (`Holds.call`). So the
entry is found after any number of renders (`Holds.serve`).

This holds for all filters whose signatures leave the names of entries legible: none has a slash,
and none mentions another source that is rendered (`Distinct`). Built-in filters sign like that.
Filters that do not may share an entry with those of another source, and one of the two is lost then
(`changed_of_illegible`).
-/

set_option autoImplicit false

namespace AltRender

open AltRender.Disk AltRender.Cache

/-! ## Signatures that leave names legible -/

/-- No built-in filter signs with a slash. -/
theorem noSlash_chainOf_builtin (text : String) :
    ∀ x ∈ (Registry.builtin.chainOf text).signatures, '/' ∉ x.toList :=
  noSlash_signatures (Chain.isBuiltin_chainOf text)

theorem unmistakable_chainOf_builtin (text : String) :
    ∀ x ∈ (Registry.builtin.chainOf text).signatures, Unmistakable x :=
  unmistakable_signatures (Chain.isBuiltin_chainOf text)

namespace Disk

/-- A file is found as it was when directories have been made or something else has changed. -/
theorem look_file_mono {d d' : Disk} {p : Path} {bytes : List UInt8} {t : Instant}
    (hstart : d'.start = d.start) (hdir : ∀ l, d.isDirectoryAt l = true → d'.isDirectoryAt l = true)
    (hseen : d'.seen (p.destination d.start) = d.seen (p.destination d.start))
    (h : d.look p = .ok (.file bytes t)) : d'.look p = .ok (.file bytes t) := by
  obtain ⟨hfind, hitem⟩ := look_ok h
  have hfile := item?_file_iff.mp hitem
  rw [← hseen] at hfile
  exact look_of_find (find_mono hstart hdir hfind (by rw [hfile]; rfl)) (item?_file_iff.mpr hfile)

theorem Grown.isDirectoryAt_mono {place : Location → Prop} {d d' : Disk} (h : Grown place d d')
    {l : Location} (hl : d.isDirectoryAt l = true) : d'.isDirectoryAt l = true :=
  isDirectoryAt_iff.mpr (h.kept l folder (isDirectoryAt_iff.mp hl))

end Disk

namespace Studio

/-! ## Calls -/

/-- One of the things that a studio is asked for: a source rendered, or rendered and shown. How its
bytes are had may differ from call to call. -/
structure Call where
  fetch : Fetch
  source : Source
  text : String
  theme : Option Theme
  shown : Bool
  now : Instant

/-- The studio after a call, whatever came of it. -/
def call (studio : Studio) (a : Call) : Studio :=
  if a.shown then (studio.present a.fetch a.source a.text a.theme a.now).2
  else (studio.render a.fetch a.source a.text a.theme a.now).2

/-- The studio after several calls. -/
def serve (studio : Studio) (calls : List Call) : Studio :=
  calls.foldl call studio

theorem call_eq (studio : Studio) (a : Call) :
    studio.call a = (studio.render a.fetch a.source a.text a.theme a.now).2 := by
  unfold call present
  rcases studio.render a.fetch a.source a.text a.theme a.now with ⟨result, after⟩
  cases a.shown with
  | false => rfl
  | true => cases result <;> rfl

/-- **What a call makes can be told from the entry of a source:** the call is for that source, or
for one with another fingerprint; it signs without a slash, and of the two sources neither is
mentioned in the signatures of the other. -/
structure Call.Distinct (a : Call) (r : Registry) (s : Source) (signatures : List String) :
    Prop where
  noSlash : ∀ x ∈ (r.chainOf a.text).signatures, '/' ∉ x.toList
  other : a.source ≠ s → fingerprint a.source ≠ fingerprint s ∧
    ¬ Mentions signatures a.source ∧ ¬ Mentions (r.chainOf a.text).signatures s

/-! ## What lasts -/

/-- **A studio holds an entry** for a source, some signatures and a theme: a file that was written
at a time when it was current for the source. -/
structure Holds (r : Registry) (directory : Path) (s : Source) (signatures : List String)
    (theme : Option Theme) (bytes : List UInt8) (written : Instant) (studio : Studio) : Prop where
  registry : studio.registry = r
  place : studio.cache.absoluteDirectory = directory
  current : isCurrentFor s (.file bytes written) = true
  entry : studio.disk.look (directory.join ⟨entryName s signatures theme⟩) =
    .ok (.file bytes written)

section Holds

variable {r : Registry} {directory : Path} {s : Source} {signatures : List String}
  {theme : Option Theme} {bytes : List UInt8} {written : Instant} {studio : Studio}

/-- The entry is current under whatever signatures and theme its name is asked for. -/
theorem Holds.isCurrent_of_entryName (h : studio.Holds r directory s signatures theme bytes written)
    {signatures' : List String} {theme' : Option Theme}
    (hname : entryName s signatures' theme' = entryName s signatures theme) :
    studio.cache.isCurrent studio.disk s signatures' theme' = true := by
  unfold Cache.isCurrent
  simp only [Cache.entryPath, h.place, hname, h.entry]
  exact h.current

/-- Directories that were made for another entry do not matter. -/
theorem Holds.grown (h : studio.Holds r directory s signatures theme bytes written)
    {place : Location → Prop} {d : Disk} (hgrown : Grown place studio.disk d) (c : Cache)
    (hc : c.absoluteDirectory = studio.cache.absoluteDirectory) (reads : Nat) :
    Holds r directory s signatures theme bytes written ⟨studio.registry, studio.codec, c, d,
      reads⟩ := by
  refine ⟨h.registry, hc.trans h.place, h.current, ?_⟩
  obtain ⟨-, hitem⟩ := look_ok h.entry
  have hfile := item?_file_iff.mp hitem
  exact look_file_mono hgrown.start (fun _ hl => hgrown.isDirectoryAt_mono hl)
    ((hgrown.kept _ _ hfile).trans hfile.symm) h.entry

/-- **A file installed under another name does not matter.** -/
theorem Holds.installed (h : studio.Holds r directory s signatures theme bytes written)
    (hslash : ∀ x ∈ signatures, '/' ∉ x.toList) {s' : Source} {signatures' : List String}
    {theme' : Option Theme} (hslash' : ∀ x ∈ signatures', '/' ∉ x.toList)
    (hne : entryName s' signatures' theme' ≠ entryName s signatures theme) {bytes' : List UInt8}
    {now : Instant} {d : Disk}
    (hinstall :
      studio.disk.install (directory.join ⟨entryName s' signatures' theme'⟩) bytes' now = .ok d) :
    ({ studio with disk := d }).Holds r directory s signatures theme bytes written := by
  refine ⟨h.registry, h.place, h.current, ?_⟩
  obtain ⟨haltered, hfolder⟩ := install_ok hinstall
  have hplace : (directory.join ⟨entryName s signatures theme⟩).destination studio.disk.start ≠
      (directory.join ⟨entryName s' signatures' theme'⟩).destination studio.disk.start := by
    rw [Path.destination_join _ _ (plainName_entryName s hslash theme),
      Path.destination_join _ _ (plainName_entryName s' hslash' theme')]
    intro heq
    exact hne (List.singleton_inj.mp (List.append_cancel_left heq)).symm
  exact look_file_mono haltered.start (fun _ hl => haltered.isDirectoryAt_mono hfolder hl)
    (haltered.seen_of_ne hplace)
    h.entry

/-- **A call leaves an entry alone** if what it makes can be told from it. -/
theorem Holds.call (h : studio.Holds r directory s signatures theme bytes written)
    (hslash : ∀ x ∈ signatures, '/' ∉ x.toList) {a : Call} (ha : a.Distinct r s signatures) :
    (studio.call a).Holds r directory s signatures theme bytes written := by
  have hgoes := renderBy_goes .atOnce a.fetch studio a.source a.text a.theme a.now
  rw [renderBy_atOnce] at hgoes
  rw [call_eq]
  generalize studio.render a.fetch a.source a.text a.theme a.now = outcome at hgoes
  obtain ⟨result, after⟩ := outcome
  cases hgoes with
  | idle _ => exact h
  | hit _ _ => exact ⟨h.registry, h.place, h.current, h.entry⟩
  | unmade _ _ _ => exact ⟨h.registry, h.place, h.current, h.entry⟩
  | unwritten _ _ _ hwrite =>
    obtain ⟨rfl, hgrown⟩ := Writer.write_error hwrite
    exact h.grown hgrown studio.afterMiss.cache rfl _
  | written _ hcurrent _ hwrite =>
    rw [Writer.write] at hwrite
    obtain ⟨rfl, d₁, hmade, hinstall⟩ := write_done hwrite
    have hgrown := makeDirectories_grown studio.disk ((studio.cache.entryPath a.source
      (studio.registry.chainOf a.text).signatures a.theme).parent?.getD
      studio.afterMiss.cache.absoluteDirectory) a.now
    rw [hmade] at hgrown
    have hslash' := ha.noSlash
    rw [← h.registry] at hslash'
    rw [Cache.entryPath, h.place] at hinstall
    refine (h.grown hgrown { studio.afterMiss.cache with tally :=
      studio.afterMiss.cache.tally.addWrite } rfl
      _).installed hslash hslash' (fun heq => ?_) hinstall
    have hsame : a.source = s := by
      by_contra hne
      obtain ⟨hfingerprint, hmentions, hmentions'⟩ := ha.other hne
      rw [← h.registry] at hmentions'
      exact hfingerprint (fingerprint_of_entryName hmentions' hmentions heq)
    -- Under the same name it is the same entry, and that one is current for its source.
    rw [hsame, h.isCurrent_of_entryName (hsame ▸ heq)] at hcurrent
    exact absurd hcurrent (by decide)

/-- **So do several.** -/
theorem Holds.serve (h : studio.Holds r directory s signatures theme bytes written)
    (hslash : ∀ x ∈ signatures, '/' ∉ x.toList) {calls : List Call}
    (hcalls : ∀ a ∈ calls, a.Distinct r s signatures) :
    (studio.serve calls).Holds r directory s signatures theme bytes written := by
  induction calls generalizing studio with
  | nil => exact h
  | cons a rest ih =>
    exact ih (h.call hslash (hcalls a List.mem_cons_self))
      fun b hb => hcalls b (List.mem_cons_of_mem a hb)

/-- A render that finds the entry asks for no bytes. -/
theorem Holds.render (h : studio.Holds r directory s signatures theme bytes written) {text : String}
    (hchain : (r.chainOf text).isEmpty = false) (htext : (r.chainOf text).signatures = signatures)
    (fetch : Fetch) (now : Instant) :
    studio.render fetch s text theme now =
      (.ok (.cached (directory.join ⟨entryName s signatures theme⟩)), studio.afterHit) := by
  have hgoes := renderBy_goes .atOnce fetch studio s text theme now
  rw [renderBy_atOnce, h.registry] at hgoes
  have hcurrent := h.isCurrent_of_entryName rfl
  rw [← htext] at hcurrent
  have hpath : studio.cache.entryPath s (r.chainOf text).signatures theme =
      directory.join ⟨entryName s signatures theme⟩ := by
    rw [Cache.entryPath, h.place, htext]
  generalize studio.render fetch s text theme now = outcome at hgoes
  obtain ⟨result, after⟩ := outcome
  cases hgoes with
  | idle hempty =>
    rw [hchain] at hempty
    exact absurd hempty (by decide)
  | hit _ _ =>
    rw [hpath]
    rfl
  | unmade _ hstale _ | unwritten _ hstale _ _ | written _ hstale _ _ =>
    rw [hcurrent] at hstale
    exact absurd hstale (by decide)

end Holds

theorem isEmpty_of_signatures {c c' : Chain} (h : c'.signatures = c.signatures) :
    c'.isEmpty = c.isEmpty := by
  have hlength := congrArg List.length h
  rw [Chain.signatures, Chain.signatures, List.length_map, List.length_map] at hlength
  rw [Bool.eq_iff_iff, List.isEmpty_iff_length_eq_zero, List.isEmpty_iff_length_eq_zero, hlength]

/-- **A render that made an entry leaves a studio that holds it,** if the time of the entry is
current for the source. -/
theorem holds_of_created {fetch : Fetch} {studio after : Studio} {s : Source} {text : String}
    {theme : Option Theme} {now : Instant} {p : Path}
    (hrender : studio.render fetch s text theme now = (.ok (.created p), after))
    (hcurrent : ∀ bytes, isCurrentFor s (.file bytes now) = true) :
    (studio.registry.chainOf text).isEmpty = false ∧
      p = studio.cache.entryPath s (studio.registry.chainOf text).signatures theme ∧
      ∃ bytes, after.Holds studio.registry studio.cache.absoluteDirectory s
        (studio.registry.chainOf text).signatures
        theme bytes now := by
  have hgoes := renderBy_goes .atOnce fetch studio s text theme now
  rw [renderBy_atOnce, hrender] at hgoes
  cases hgoes with
  | @written contents c d hchain _ _ hwrite =>
    rw [Writer.write] at hwrite
    obtain ⟨rfl, d₁, -, hinstall⟩ := write_done hwrite
    exact ⟨hchain, rfl, contents, rfl, rfl, hcurrent _, look_of_install hinstall⟩

/-- **An entry that was made stays a hit.** After any calls for its own source or for sources of
other fingerprints, whatever came of them, a render of it answers with its path, asks for no bytes,
and finds the bytes at the path that were written; unless a filter signs with a slash, or the
signatures of one source mention another. -/
theorem cached_after_created {fetch : Fetch} {studio after : Studio} {s : Source} {text : String}
    {theme : Option Theme} {now : Instant} {p : Path}
    (hrender : studio.render fetch s text theme now = (.ok (.created p), after)) {ms : UInt64}
    (hms : now.milliseconds? = some ms) (hs : s.isRemote = true ∨ s.modified ≤ ms)
    {calls : List Call} (hcalls : ∀ a ∈ calls, a.source = s ∨ a.source.identity ≠ s.identity)
    (hfingerprints :
      ∀ a ∈ calls, fingerprint a.source = fingerprint s → a.source.identity = s.identity)
    (hslash : ∀ x ∈ (studio.registry.chainOf text).signatures, '/' ∉ x.toList)
    (hslashes : ∀ a ∈ calls, ∀ x ∈ (studio.registry.chainOf a.text).signatures, '/' ∉ x.toList)
    (hmentions : ∀ a ∈ calls, a.source.identity ≠ s.identity →
      ¬ Mentions (studio.registry.chainOf text).signatures a.source ∧
      ¬ Mentions (studio.registry.chainOf a.text).signatures s)
    {text' : String}
    (htext : (studio.registry.chainOf text').signatures = (studio.registry.chainOf text).signatures)
    (fetch' : Fetch) (now' : Instant) :
    ∃ bytes later, after.disk.read p = .ok bytes ∧
      (after.serve calls).render fetch' s text' theme now' = (.ok (.cached p), later) ∧
      later.reads = (after.serve calls).reads ∧ later.disk.read p = .ok bytes := by
  -- The entry is stamped with the time of the render, which the source is not after.
  have hcurrent : ∀ bytes, isCurrentFor s (.file bytes now) = true := by
    intro bytes
    simpa [isCurrentFor, Item.changed, hms] using hs
  obtain ⟨hchain, rfl, bytes, hholds⟩ := holds_of_created hrender hcurrent
  have hdistinct :
    ∀ a ∈ calls, a.Distinct studio.registry s (studio.registry.chainOf text).signatures := by
    refine fun a ha => ⟨hslashes a ha, fun hne => ?_⟩
    have hother := (hcalls a ha).resolve_left hne
    exact ⟨fun hsame => hother (hfingerprints a ha hsame), hmentions a ha hother⟩
  have hserved := hholds.serve hslash hdistinct
  have hchain' := (isEmpty_of_signatures htext).trans hchain
  exact ⟨bytes, _, read_of_look hholds.entry, hserved.render hchain' htext fetch' now', rfl,
    read_of_look hserved.entry⟩

/-- The source of `small` and another one, which cannot be read, after the entry was made. -/
def laterCalls : List Call :=
  [⟨Command.localFetch ⟨""⟩, .atPath ⟨"a.png"⟩ ⟨0⟩, "@invert @sharpen", none, false, ⟨2000000⟩⟩,
    ⟨Command.localFetch ⟨""⟩, .atPath ⟨"b.png"⟩ ⟨0⟩, "@invert", none, true, ⟨3000000⟩⟩]

/-- The entry that was made is found under another text with the same filter, though a second entry
was made since and a render of another source failed. -/
theorem cached_after_created_small :
    ∃ bytes later,
      (smallRender ⟨"c"⟩ [] ⟨0⟩ ⟨1000000⟩).2.disk.read ⟨"c/a_7f071235805f_invert.png"⟩ = .ok bytes ∧
      ((smallRender ⟨"c"⟩ [] ⟨0⟩ ⟨1000000⟩).2.serve laterCalls).render
        (fun _ _ => .error (.network "" ""))
        (.atPath ⟨"a.png"⟩ ⟨0⟩) "@nothing, then @invert" none ⟨4000000⟩ =
          (.ok (.cached ⟨"c/a_7f071235805f_invert.png"⟩), later) ∧
      later.reads = ((smallRender ⟨"c"⟩ [] ⟨0⟩ ⟨1000000⟩).2.serve laterCalls).reads ∧
      later.disk.read ⟨"c/a_7f071235805f_invert.png"⟩ = .ok bytes := by
  have hrender : (smallRender ⟨"c"⟩ [] ⟨0⟩ ⟨1000000⟩).1 =
    .ok (.created ⟨"c/a_7f071235805f_invert.png"⟩) := by
    decide +kernel
  have hcalls : ∀ a ∈ laterCalls, a.source = .atPath ⟨"a.png"⟩ ⟨0⟩ ∨
      a.source.identity ≠ (Source.atPath ⟨"a.png"⟩ ⟨0⟩).identity := by
    decide +kernel
  have hfingerprints :
    ∀ a ∈ laterCalls, fingerprint a.source = fingerprint (.atPath ⟨"a.png"⟩ ⟨0⟩) →
      a.source.identity = (Source.atPath ⟨"a.png"⟩ ⟨0⟩).identity := by
    decide +kernel
  have htext : (Registry.builtin.chainOf "@nothing, then @invert").signatures =
      (Registry.builtin.chainOf "@invert").signatures := by
    decide +kernel
  -- The text names a filter that is not there, which leaves the chain as it is.
  exact cached_after_created (Prod.ext hrender rfl) rfl (.inr (by decide)) hcalls hfingerprints
    (noSlash_chainOf_builtin _) (fun a _ => noSlash_chainOf_builtin a.text)
    (fun a _ _ => ⟨not_mentions_of_unmistakable (unmistakable_chainOf_builtin _) _,
      not_mentions_of_unmistakable (unmistakable_chainOf_builtin _) _⟩) htext _ _

/-! ## Signatures that do not -/

/-- The source of `small` with another one that was changed later and has the beginning of its
entries in its name. -/
def twoSources : Disk :=
  ⟨(Keyed.empty.insert ["a.png"] (.file (onePixel ⟨10, 20, 30⟩).toContainer ⟨0⟩)).insert
    ["a_7f071235805f.png"] (.file (onePixel ⟨0, 0, 0⟩).toContainer ⟨2000000⟩), []⟩

/-- A studio with both and with one more filter, which changes nothing and signs as it likes. -/
def signing (signature : String) : Studio :=
  ⟨Registry.builtin.register "plain" fun _ => ⟨"plain", signature, fun f _ => .ok f⟩, .container,
    .ofDirectory ⟨""⟩ ⟨"c"⟩, twoSources, 0⟩

/-- The first source rendered with that filter. -/
def signedRender (studio : Studio) (now : Instant) : Except RenderFault Rendered × Studio :=
  studio.render (Command.localFetch ⟨""⟩) (.atPath ⟨"a.png"⟩ ⟨0⟩) "@plain" none now

/-- The second source rendered as a text says. -/
def otherCall (text : String) : Call :=
  ⟨Command.localFetch ⟨""⟩, .atPath ⟨"a_7f071235805f.png"⟩ ⟨2000000⟩, text, none, false, ⟨3000000⟩⟩

/-- **An entry is lost if a signature is not legible.** A filter that signs with the fingerprint of
the second source, and one that signs with a way out of the directory it is put into, lead the first
source to the place of an entry of the second. Once that entry is made, the first finds it as its
own. -/
theorem changed_of_illegible :
    let p : Path := ⟨"c/a_7f071235805f_4eb4e62b16f8_invert.png"⟩
    let mentioning := signing "4eb4e62b16f8_invert"
    let sharing := signing "k/../z"
    let q : Path := ⟨"c/a_7f071235805f_k/../z.png"⟩
    (signedRender mentioning ⟨1000000⟩).1 = .ok (.created p) ∧
      (signedRender mentioning ⟨1000000⟩).2.disk.read p = .ok (onePixel ⟨10, 20, 30⟩).toContainer ∧
      (signedRender ((signedRender mentioning ⟨1000000⟩).2.serve [otherCall "@invert"])
        ⟨4000000⟩).1 =
        .ok (.cached p) ∧
      (signedRender ((signedRender mentioning ⟨1000000⟩).2.serve [otherCall "@invert"])
        ⟨4000000⟩).2.disk.read p =
        .ok (onePixel ⟨255, 255, 255⟩).toContainer ∧
      (signedRender sharing ⟨1000000⟩).1 = .ok (.created q) ∧
      (signedRender sharing ⟨1000000⟩).2.disk.read q = .ok (onePixel ⟨10, 20, 30⟩).toContainer ∧
      (signedRender ((signedRender sharing ⟨1000000⟩).2.serve [otherCall "@plain"]) ⟨4000000⟩).1 =
        .ok (.cached q) ∧
      (signedRender ((signedRender sharing ⟨1000000⟩).2.serve [otherCall "@plain"])
        ⟨4000000⟩).2.disk.read q =
        .ok (onePixel ⟨0, 0, 0⟩).toContainer := by
  decide +kernel

end Studio

end AltRender

import AltRender.Cache.Change
import AltRender.Picture.Codec
import AltRender.Registry
import AltRender.Vault

/-!
# `Render` — from an annotation to a cache entry

A render resolves the annotation to a chain, looks whether the cache has a current entry, and if not
reads the source, decodes it, brings the picture into a working form, applies the chain, encodes
what came out and writes it. An annotation that names no filter asks for nothing and touches
nothing.

Each of the steps can fail, and each fault says which one it was and what was wrong (`RenderFault`).
How pictures stand in files is left to the codec of the studio; a render only passes its words on.

Before it builds, a render that found no entry looks once more, because another one may have made it
in the meantime; so each build is preceded by two checks. Both are counted, and so is each time that
the bytes of a source are asked for.
-/

set_option autoImplicit false

namespace AltRender

open AltRender.Disk

/-- Why a render gives nothing. -/
inductive RenderFault where
  | source (cause : ReadFault)
  | undecodable (identity cause : String)
  | unencodable (identity cause : String)
  | filter (cause : FilterFault)
  | cacheWrite (path : Path) (cause : Fault)
  deriving DecidableEq, Repr

namespace RenderFault

def message : RenderFault → String
  | .source cause => s!"Could not load source: {cause.message}"
  | .undecodable identity cause => s!"Could not decode {identity}: {cause}"
  | .unencodable identity cause => s!"Could not encode result for {identity}: {cause}"
  | .filter cause => s!"Filter chain failed: {cause.message}"
  | .cacheWrite path cause => s!"Could not write cache file {path.text}: {cause.message}"

/-- **Whether the same render may succeed later.** Disks and networks change; pictures and filters
do not. -/
def isTransient : RenderFault → Bool
  | .source (.outsideVault _) => false
  | .source _ => true
  | .cacheWrite .. => true
  | .undecodable .. => false
  | .unencodable .. => false
  | .filter _ => false

end RenderFault

/-- What a render gives. -/
inductive Rendered where
  /-- The annotation asks for nothing. -/
  | noFilters
  /-- There was a current entry at the path. -/
  | cached (path : Path)
  /-- The entry at the path was made. -/
  | created (path : Path)
  deriving DecidableEq, Repr

def Rendered.path? : Rendered → Option Path
  | .noFilters => none
  | .cached path => some path
  | .created path => some path

/-- How the bytes of a source are had. -/
abbrev Fetch := Disk → Source → Except ReadFault (List UInt8)

/-- Everything that renders work with. `reads` counts how often bytes of a source were asked for. -/
structure Studio where
  registry : Registry
  codec : Codec
  cache : Cache
  disk : Disk
  reads : Nat

namespace Studio

/-! ## Building an entry -/

/-- The picture that a chain makes of a source's bytes. -/
def develop (codec : Codec) (chain : Chain) (s : Source) (theme : Option Theme)
    (bytes : List UInt8) : Except RenderFault Picture :=
  match codec.decode bytes with
  | .error cause => .error (.undecodable s.identity cause)
  | .ok p =>
    match chain.apply ⟨p.normalize, s⟩ theme with
    | .error cause => .error (.filter cause)
    | .ok frame => .ok frame.picture

/-- **The bytes of an entry:** those of the picture that a chain makes of a source's bytes. -/
def print (codec : Codec) (chain : Chain) (s : Source) (theme : Option Theme) (bytes : List UInt8) :
    Except RenderFault (List UInt8) :=
  match develop codec chain s theme bytes with
  | .error fault => .error fault
  | .ok picture => (codec.encode picture).mapError (RenderFault.unencodable s.identity)

/-- What an entry for the source is to hold. The source is read for it. -/
def load (fetch : Fetch) (studio : Studio) (s : Source) (chain : Chain) (theme : Option Theme) :
    Except RenderFault (List UInt8) × Studio :=
  let asked := { studio with reads := studio.reads + 1 }
  match fetch studio.disk s with
  | .error cause => (.error (.source cause), asked)
  | .ok bytes => (print studio.codec chain s theme bytes, asked)

def store (studio : Studio) (path : Path) (contents : List UInt8) (now : Instant) :
    Except RenderFault Unit × Studio :=
  let (result, cache, disk) := studio.cache.write studio.disk path contents now
  (result.mapError (RenderFault.cacheWrite path), { studio with cache := cache, disk := disk })

/-- The entry at a path made from the source. -/
def build (fetch : Fetch) (studio : Studio) (s : Source) (chain : Chain) (theme : Option Theme)
    (path : Path) (now : Instant) : Except RenderFault Unit × Studio :=
  match studio.load fetch s chain theme with
  | (.error fault, studio) => (.error fault, studio)
  | (.ok contents, studio) => studio.store path contents now

/-! ## Rendering -/

/-- Whether there is a current entry, and the studio that has counted the check. -/
def check (studio : Studio) (s : Source) (signatures : List String) (theme : Option Theme) :
    Bool × Studio :=
  let (hit, cache) := studio.cache.check studio.disk s signatures theme
  (hit, { studio with cache := cache })

/-- **A source rendered as a text and a theme say.** -/
def render (fetch : Fetch) (studio : Studio) (s : Source) (text : String) (theme : Option Theme)
    (now : Instant) : Except RenderFault Rendered × Studio :=
  let chain := studio.registry.chainOf text
  if chain.isEmpty then (.ok .noFilters, studio)
  else
    let path := studio.cache.entryPath s chain.signatures theme
    match studio.check s chain.signatures theme with
    | (true, studio) => (.ok (.cached path), studio)
    | (false, studio) =>
      -- The second check is the one made under the entry's lock. It is counted like the first.
      match studio.check s chain.signatures theme with
      | (true, studio) => (.ok (.cached path), studio)
      | (false, studio) =>
        let (result, studio) := build fetch studio s chain theme path now
        (result.map fun _ => .created path, studio)

/-- **A render whose path is shown,** if there is one. Faults show nothing. -/
def present (fetch : Fetch) (studio : Studio) (s : Source) (text : String) (theme : Option Theme)
    (now : Instant) : Option Path × Studio :=
  match studio.render fetch s text theme now with
  | (.ok rendered, studio) => (rendered.path?, studio)
  | (.error _, studio) => (none, studio)

/-! ## The ways a render can go -/

section Ways

variable {fetch : Fetch} {studio s₁ s₂ s₃ s₄ : Studio} {s : Source} {text : String}
  {theme : Option Theme} {now : Instant}

theorem render_of_isEmpty (h : (studio.registry.chainOf text).isEmpty = true) :
    studio.render fetch s text theme now = (.ok .noFilters, studio) := by
  simp only [render, h, if_true]

theorem render_of_hit (h : (studio.registry.chainOf text).isEmpty = false)
    (h₁ : studio.check s (studio.registry.chainOf text).signatures theme = (true, s₁)) :
    studio.render fetch s text theme now =
      (.ok (.cached (studio.cache.entryPath s (studio.registry.chainOf text).signatures theme)),
        s₁) := by
  simp only [render, h, h₁, Bool.false_eq_true, if_false]

theorem render_of_late_hit (h : (studio.registry.chainOf text).isEmpty = false)
    (h₁ : studio.check s (studio.registry.chainOf text).signatures theme = (false, s₁))
    (h₂ : s₁.check s (studio.registry.chainOf text).signatures theme = (true, s₂)) :
    studio.render fetch s text theme now =
      (.ok (.cached (studio.cache.entryPath s (studio.registry.chainOf text).signatures theme)),
        s₂) := by
  simp only [render, h, h₁, h₂, Bool.false_eq_true, if_false]

theorem render_of_load_error {fault : RenderFault}
    (h : (studio.registry.chainOf text).isEmpty = false)
    (h₁ : studio.check s (studio.registry.chainOf text).signatures theme = (false, s₁))
    (h₂ : s₁.check s (studio.registry.chainOf text).signatures theme = (false, s₂))
    (h₃ : s₂.load fetch s (studio.registry.chainOf text) theme = (.error fault, s₃)) :
    studio.render fetch s text theme now = (.error fault, s₃) := by
  simp only [render, build, h, h₁, h₂, h₃, Bool.false_eq_true, if_false]
  rfl

theorem render_of_store {contents : List UInt8} {result : Except RenderFault Unit} {path : Path}
    (h : (studio.registry.chainOf text).isEmpty = false)
    (hp : studio.cache.entryPath s (studio.registry.chainOf text).signatures theme = path)
    (h₁ : studio.check s (studio.registry.chainOf text).signatures theme = (false, s₁))
    (h₂ : s₁.check s (studio.registry.chainOf text).signatures theme = (false, s₂))
    (h₃ : s₂.load fetch s (studio.registry.chainOf text) theme = (.ok contents, s₃))
    (h₄ : s₃.store path contents now = (result, s₄)) :
    studio.render fetch s text theme now = (result.map fun _ => .created path, s₄) := by
  subst hp
  simp only [render, build, h, h₁, h₂, h₃, h₄, Bool.false_eq_true, if_false]

end Ways

/-! ## What stays

Nothing that a render does changes which filters there are, how pictures stand in files, or where
entries are. -/

theorem registry_check (studio : Studio) (s : Source) (signatures : List String)
    (theme : Option Theme) : (studio.check s signatures theme).2.registry = studio.registry := by
  simp only [check]

theorem codec_check (studio : Studio) (s : Source) (signatures : List String)
    (theme : Option Theme) :
    (studio.check s signatures theme).2.codec = studio.codec := by
  simp only [check]

theorem entryPath_check (studio : Studio) (s : Source) (signatures : List String)
    (theme : Option Theme) :
    (studio.check s signatures theme).2.cache.entryPath = studio.cache.entryPath := by
  funext s' signatures' theme'
  simp only [check, Cache.check, Cache.entryPath, Cache.absoluteDirectory]

theorem registry_load (fetch : Fetch) (studio : Studio) (s : Source) (chain : Chain)
    (theme : Option Theme) : (studio.load fetch s chain theme).2.registry = studio.registry := by
  unfold load
  split <;> rfl

theorem codec_load (fetch : Fetch) (studio : Studio) (s : Source) (chain : Chain)
    (theme : Option Theme) : (studio.load fetch s chain theme).2.codec = studio.codec := by
  unfold load
  split <;> rfl

theorem cache_load (fetch : Fetch) (studio : Studio) (s : Source) (chain : Chain)
    (theme : Option Theme) : (studio.load fetch s chain theme).2.cache = studio.cache := by
  unfold load
  split <;> rfl

theorem registry_store (studio : Studio) (path : Path) (contents : List UInt8) (now : Instant) :
    (studio.store path contents now).2.registry = studio.registry := by
  simp only [store]

theorem codec_store (studio : Studio) (path : Path) (contents : List UInt8) (now : Instant) :
    (studio.store path contents now).2.codec = studio.codec := by
  simp only [store]

theorem entryPath_store (studio : Studio) (path : Path) (contents : List UInt8) (now : Instant) :
    (studio.store path contents now).2.cache.entryPath = studio.cache.entryPath := by
  simp only [store, Cache.entryPath_write]

/-- **One studio has the filters and the codec of another, and the entries at the same places.** -/
structure SamePlaces (studio after : Studio) : Prop where
  registry : after.registry = studio.registry
  codec : after.codec = studio.codec
  entryPath : after.cache.entryPath = studio.cache.entryPath

theorem SamePlaces.trans {studio middle after : Studio} (h : SamePlaces studio middle)
    (h' : SamePlaces middle after) : SamePlaces studio after :=
  ⟨h'.registry.trans h.registry, h'.codec.trans h.codec, h'.entryPath.trans h.entryPath⟩

theorem samePlaces_check (studio : Studio) (s : Source) (signatures : List String)
    (theme : Option Theme) : SamePlaces studio (studio.check s signatures theme).2 :=
  ⟨studio.registry_check s signatures theme, studio.codec_check s signatures theme,
    studio.entryPath_check s signatures theme⟩

theorem samePlaces_load (studio : Studio) (fetch : Fetch) (s : Source) (chain : Chain)
    (theme : Option Theme) : SamePlaces studio (studio.load fetch s chain theme).2 :=
  ⟨studio.registry_load fetch s chain theme, studio.codec_load fetch s chain theme,
    by rw [studio.cache_load]⟩

theorem samePlaces_store (studio : Studio) (path : Path) (contents : List UInt8) (now : Instant) :
    SamePlaces studio (studio.store path contents now).2 :=
  ⟨studio.registry_store path contents now, studio.codec_store path contents now,
    studio.entryPath_store path contents now⟩

/-! ## Clearing -/

def invalidate (studio : Studio) (s : Source) (now : Instant) : Nat × Studio :=
  let (n, cache, disk) := studio.cache.clearSource studio.disk s now
  (n, { studio with cache := cache, disk := disk })

def clearEntire (studio : Studio) (now : Instant) : Nat × Studio :=
  let (n, cache, disk) := studio.cache.clearAll studio.disk now
  (n, { studio with cache := cache, disk := disk })

def moveCache (studio : Studio) (directory : Path) (now : Instant) : Studio :=
  let (cache, disk) := studio.cache.moveTo studio.disk directory now
  { studio with cache := cache, disk := disk }

end Studio

end AltRender

import AltRender.Proofs.Cache.Stock
import AltRender.Proofs.Render.Lasting
import AltRender.Proofs.Render.Steady

/-!
# `Proofs/Render/Request` — one request of a batch

A batch is a list of requests that are rendered one after the other, each at its own time. A request
asks for the render of a source as a text says, and everything that decides what it gives can be
named without rendering it: whether its text asks for any filter at all, whether a current entry is
found for it (`Studio.finds`), what its entry is to hold (`Studio.madeFor`), and whether there is a
place for the entry (`Disk.stow`).

`Studio.served` says that a render goes in one of five ways by these, and `Served.eq_answer` that
what it gives is a function of them. A request in the middle of a batch can then be compared with
the same request on its own (`Studio.alone`) by comparing the four.
-/

set_option autoImplicit false

namespace AltRender

open AltRender.Disk AltRender.Cache

/-! ## Requests -/

/-- One render of a batch. -/
structure Request where
  source : Source
  text : String
  theme : Option Theme
  deriving DecidableEq, Repr

namespace Studio

/-- The requests of a batch rendered one after the other, each at its time: what each gave, and the
studio afterwards. -/
def batch (fetch : Fetch) :
    Studio → List (Instant × Request) → List (Request × Except RenderFault Rendered) × Studio
  | studio, [] => ([], studio)
  | studio, (now, q) :: rest =>
    let (result, after) := studio.render fetch q.source q.text q.theme now
    let (answers, last) := after.batch fetch rest
    ((q, result) :: answers, last)

theorem batch_cons (fetch : Fetch) (studio : Studio) (now : Instant) (q : Request)
    (rest : List (Instant × Request)) :
    studio.batch fetch ((now, q) :: rest) =
      ((q, (studio.render fetch q.source q.text q.theme now).1) ::
          ((studio.render fetch q.source q.text q.theme now).2.batch fetch rest).1,
        ((studio.render fetch q.source q.text q.theme now).2.batch fetch rest).2) := by
  rw [batch]

section Requests

variable (fetch : Fetch) (studio : Studio) (q : Request)

def chainOf : Chain := studio.registry.chainOf q.text

def nameOf : String := entryName q.source (studio.chainOf q).signatures q.theme

def pathOf : Path := studio.cache.entryPath q.source (studio.chainOf q).signatures q.theme

def finds : Bool :=
  studio.cache.isCurrent studio.disk q.source (studio.chainOf q).signatures q.theme

def madeFor : Except RenderFault (List UInt8) :=
  made studio.codec fetch studio.disk q.source (studio.chainOf q) q.theme

/-- Whether a request comes to the point where an entry has to be written. -/
def Due : Prop :=
  (studio.chainOf q).isEmpty = false ∧ studio.finds q = false ∧
    ∃ contents, studio.madeFor fetch q = .ok contents

/-- Whether it gets beyond that point. -/
def Creates : Prop :=
  studio.Due fetch q ∧
    ∃ l, (studio.disk.stow studio.cache.absoluteDirectory (studio.nameOf q) ⟨0⟩).1 = .ok l

/-- What a request gives on its own. -/
def alone : Except RenderFault Rendered := (studio.render fetch q.source q.text q.theme ⟨0⟩).1

end Requests

/-- **What makes the order of a batch irrelevant:** the filters are the built-in ones; everything on
the disk is in a directory, and the path of the cache goes up from directories only that are there;
sources that have one fingerprint are the same; and what is read of them depends on their
identities, whatever happens in the cache. -/
structure Orderly (fetch : Fetch) (studio : Studio) (requests : List Request) : Prop where
  registry : studio.registry = Registry.builtin
  tree : studio.disk.IsTree
  climbs : studio.cache.absoluteDirectory.ClimbsOn studio.disk
  fingerprints : ∀ q ∈ requests, ∀ q' ∈ requests, fingerprint q.source = fingerprint q'.source →
    q.source.identity = q'.source.identity
  steady :
    fetch.Steady (studio.cache.home studio.disk.start) studio.disk (requests.map Request.source)

/-! ## What a request gives -/

variable {fetch : Fetch} {start studio after : Studio} {q : Request}
  {now : Instant} {result : Except RenderFault Rendered}

/-- **The ways a request can go,** in the words of the request. -/
inductive Served (fetch : Fetch) (studio : Studio) (q : Request) (now : Instant) :
    Except RenderFault Rendered → Studio → Prop
  | idle (hidle : (studio.chainOf q).isEmpty = true) :
      Served fetch studio q now (.ok .noFilters) studio
  | found (hidle : (studio.chainOf q).isEmpty = false) (hcurrent : studio.finds q = true) :
      Served fetch studio q now (.ok (.cached (studio.pathOf q))) studio.afterHit
  | unmade {fault : RenderFault} (hidle : (studio.chainOf q).isEmpty = false)
      (hcurrent : studio.finds q = false) (hmade : studio.madeFor fetch q = .error fault) :
      Served fetch studio q now (.error fault) studio.afterMiss
  | refused {contents : List UInt8} {fault : Fault} {e : Disk}
      (hidle : (studio.chainOf q).isEmpty = false) (hcurrent : studio.finds q = false)
      (hmade : studio.madeFor fetch q = .ok contents)
      (hstow :
        studio.disk.stow studio.cache.absoluteDirectory (studio.nameOf q) now = (.error fault, e)) :
      Served fetch studio q now (.error (.cacheWrite (studio.pathOf q) fault))
        { studio.afterMiss with disk := e }
  | created {contents : List UInt8} {l : Location} {e : Disk}
      (hidle : (studio.chainOf q).isEmpty = false) (hcurrent : studio.finds q = false)
      (hmade : studio.madeFor fetch q = .ok contents)
      (hstow : studio.disk.stow studio.cache.absoluteDirectory (studio.nameOf q) now = (.ok l, e)) :
      Served fetch studio q now (.ok (.created (studio.pathOf q)))
        { studio.afterMiss with
          cache := { studio.afterMiss.cache with tally := studio.afterMiss.cache.tally.addWrite }
          disk := e.place l (.file contents now) now }

theorem plainName_nameOf (h : studio.registry = Registry.builtin) (q : Request) :
    PlainName (studio.nameOf q) := by
  refine plainName_entryName q.source ?_ q.theme
  rw [chainOf, h]
  exact noSlash_chainOf_builtin q.text

theorem served (h : studio.registry = Registry.builtin) (fetch : Fetch) (q : Request)
    (now : Instant) :
    Served fetch studio q now (studio.render fetch q.source q.text q.theme now).1
      (studio.render fetch q.source q.text q.theme now).2 := by
  have hplain := plainName_nameOf h q
  have hgoes := renderBy_goes .atOnce fetch studio q.source q.text q.theme now
  rw [renderBy_atOnce] at hgoes
  generalize studio.render fetch q.source q.text q.theme now = outcome at hgoes ⊢
  obtain ⟨result, after⟩ := outcome
  cases hgoes with
  | idle hidle => exact .idle hidle
  | hit hidle hcurrent => exact .found hidle hcurrent
  | unmade hidle hcurrent hmade => exact .unmade hidle hcurrent hmade
  | unwritten hidle hcurrent hmade hwrite =>
    rw [Writer.write] at hwrite
    obtain ⟨hstow, rfl⟩ := stow_of_unwritten hplain hwrite
    exact .refused hidle hcurrent hmade hstow
  | written hidle hcurrent hmade hwrite =>
    rw [Writer.write] at hwrite
    obtain ⟨l, e, hstow, rfl, rfl⟩ := stow_of_written hplain hwrite
    exact .created hidle hcurrent hmade hstow

/-- What is given, by whether anything is asked for, whether there is an entry, what it is to hold
and where it can be put. -/
def answer (path : Path) (idle current : Bool) (made : Except RenderFault (List UInt8))
    (slot : Except Fault Location) : Except RenderFault Rendered :=
  if idle then .ok .noFilters
  else if current then .ok (.cached path)
  else made.bind fun _ => (slot.mapError (RenderFault.cacheWrite path)).map fun _ => .created path

theorem Served.eq_answer (h : Served fetch studio q now result after) :
    result =
      answer (studio.pathOf q) (studio.chainOf q).isEmpty (studio.finds q) (studio.madeFor fetch q)
      (studio.disk.stow studio.cache.absoluteDirectory (studio.nameOf q) now).1 := by
  cases h with
  | idle hidle => simp only [answer, hidle, if_true]
  | found hidle hcurrent =>
    simp only [answer, hidle, hcurrent, Bool.false_eq_true, if_false, if_true]
  | unmade hidle hcurrent hmade =>
    simp only [answer, hidle, hcurrent, hmade, Bool.false_eq_true, if_false, Except.bind]
  | refused hidle hcurrent hmade hstow | created hidle hcurrent hmade hstow =>
    simp only [answer, hidle, hcurrent, hmade, hstow, Bool.false_eq_true, if_false, Except.bind,
      Except.mapError, Except.map]

end Studio

end AltRender

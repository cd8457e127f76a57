import AltRender.Cache.Change

/-!
# `Cache/Staging` — an entry written stage by stage

`Cache.write` puts a finished entry into place in one step. The step has stages of its own: a
temporary file is created next to the place of the entry, it is filled, and it is renamed. Any of
them may fail, and so may the making of each directory before them: by the rules of the disk, or
because the surroundings refuse, which have no room left or a permission missing. Whatever fails
once the temporary file is there, the file is taken away again.

What is refused is a parameter and says nothing of the disk, so each way of failing leaves a disk
that can be looked at. Without any refusal the stages do what the one step does
(`Proofs/Cache/Staging`).
-/

set_option autoImplicit false

namespace AltRender

open AltRender.Disk AltRender.Text

namespace Disk

/-! ## Temporary files -/

/-- **A new, empty file at a path** where there is nothing yet. -/
def create (d : Disk) (p : Path) (now : Instant) : Except Fault Disk := do
  let t ← d.target p
  match t.name with
  | none => .error .alreadyExists
  | some name =>
    if t.endsInSlash then .error .isADirectory
    else
      let l ← child t.parent name
      if (d.item? l).isSome then .error .alreadyExists
      else .ok (d.place l (.file [] now) now)

/-- Where a finished file can be put for a path. -/
def fileSlot (d : Disk) (p : Path) : Except Fault Location := do
  let t ← d.target p
  match t.name with
  | none => .error .busy
  | some name =>
    let l ← child t.parent name
    if t.endsInSlash then .error .notADirectory
    else if d.isDirectoryAt l then .error .isADirectory
    else .ok l

/-- **A file moved to another path,** in place of a file that is there. It keeps its bytes and its
time. -/
def rename (d : Disk) (source target : Path) (now : Instant) : Except Fault Disk := do
  match ← d.look source with
  | .directory _ => .error .isADirectory
  | .file bytes changed =>
    let l ← d.find source
    let l' ← d.fileSlot target
    .ok ((d.takeAway l now).place l' (.file bytes changed) now)

end Disk

namespace Cache

/-! ## Refusals -/

/-- What the surroundings refuse of a write: to make a directory, to create the temporary file, to
take more than some of its bytes, to rename it. Whether a directory is refused may depend on what is
there by then. -/
structure Refusals where
  directory : Disk → Path → Option Fault
  temporary : Option Fault
  contents : Option (Nat × Fault)
  rename : Option Fault

namespace Refusals

def none : Refusals := ⟨fun _ _ => .none, .none, .none, .none⟩

instance : Inhabited Refusals := ⟨none⟩

end Refusals

/-- What is done, unless it is refused. -/
def unlessRefused {α : Type} (refusal : Option Fault) (done : Except Fault α) : Except Fault α :=
  match refusal with
  | some fault => .error fault
  | none => done

/-! ## The stages -/

/-- A directory made at a path, unless it is refused. -/
def makeUnless (r : Refusals) (now : Instant) (d : Disk) (p : Path) : Except Fault Disk :=
  unlessRefused (r.directory d p) (d.makeDirectory p now)

/-- The bytes written to the file at a path, or the first of them if no more are taken. -/
def fill (r : Refusals) (d : Disk) (p : Path) (bytes : List UInt8) (now : Instant) :
    Except Fault Unit × Disk :=
  match r.contents with
  | none =>
    match d.write p bytes now with
    | .ok d' => (.ok (), d')
    | .error fault => (.error fault, d)
  | some (n, fault) =>
    match d.write p (bytes.take n) now with
    | .ok d' => (.error fault, d')
    | .error fault => (.error fault, d)

/-- **A finished file put at a path by way of a temporary one.** -/
def installStaged (r : Refusals) (d : Disk) (temporary p : Path) (bytes : List UInt8)
    (now : Instant) : Except Fault Unit × Disk :=
  match unlessRefused r.temporary (d.create temporary now) with
  | .error fault => (.error fault, d)
  | .ok d₁ =>
    -- From here on the temporary file is there, and goes whenever something fails.
    match fill r d₁ temporary bytes now with
    | (.error fault, d₂) => (.error fault, (removeFile d₂ temporary now).2)
    | (.ok (), d₂) =>
      match unlessRefused r.rename (d₂.rename temporary p now) with
      | .error fault => (.error fault, (removeFile d₂ temporary now).2)
      | .ok d₃ => (.ok (), d₃)

/-- **Bytes written to the entry at a path,** the temporary file having the given name. -/
def writeStaged (r : Refusals) (temporary : String) (c : Cache) (d : Disk) (p : Path)
    (bytes : List UInt8) (now : Instant) : Except Fault Unit × Cache × Disk :=
  let directory := p.parent?.getD c.absoluteDirectory
  match makeAllBy (makeUnless r now) directory.ancestors d with
  | (.error fault, d₁) => (.error fault, c, d₁)
  | (.ok (), d₁) =>
    match installStaged r d₁ (directory.join ⟨temporary⟩) p bytes now with
    | (.error fault, d₂) => (.error fault, c, d₂)
    | (.ok (), d₂) => (.ok (), { c with tally := c.tally.addWrite }, d₂)

/-- How entries are written: at once, or by way of a temporary file of some name, with what is
refused on the way. -/
inductive Writer where
  | atOnce
  | staged (r : Refusals) (temporary : String)

/-- **Bytes written to the entry at a path,** in a writer's way. -/
def Writer.write :
    Writer → Cache → Disk → Path → List UInt8 → Instant → Except Fault Unit × Cache × Disk
  | .atOnce => Cache.write
  | .staged r temporary => writeStaged r temporary

end Cache

end AltRender

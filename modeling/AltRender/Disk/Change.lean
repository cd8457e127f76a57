import AltRender.Disk.Basic

/-!
# `Disk/Change` — writing, making and removing

A change to a disk is done completely or not at all, with one exception: making a directory together
with all that are missing above it stops at the first that cannot be made and leaves those already
made. Whatever is put into a directory or taken out of it also counts as a change of the directory.

Apart from that one a change first finds out where its path leads and whether it can be done there,
and only then touches the disk, so a refusal leaves everything as it was. Files keep the time that
they are given when they are written; a change never looks at a clock of its own.
-/

set_option autoImplicit false

namespace AltRender.Disk

open AltRender.Text

/-! ## At locations -/

def stamp (d : Disk) (l : Location) (now : Instant) : Disk :=
  match d.items.get? l with
  | some item => { d with items := d.items.insert l (item.withChanged now) }
  | none => d

def place (d : Disk) (l : Location) (item : Item) (now : Instant) : Disk :=
  { d with items := d.items.insert l item }.stamp l.dropLast now

def takeAway (d : Disk) (l : Location) (now : Instant) : Disk :=
  { d with items := d.items.erase l }.stamp l.dropLast now

/-! ## Files -/

/-- **Bytes written to the file at a path,** which is made if it is missing. -/
def write (d : Disk) (p : Path) (bytes : List UInt8) (now : Instant) : Except Fault Disk := do
  let t ← d.target p
  match t.name with
  | none => .error .isADirectory
  | some name =>
    if t.endsInSlash then .error .isADirectory
    else
      let l ← child t.parent name
      match d.item? l with
      | some (.directory _) => .error .isADirectory
      | some (.file ..) => .ok { d with items := d.items.insert l (.file bytes now) }
      | none => .ok (d.place l (.file bytes now) now)

/-- **A finished file put at a path in one step,** in place of a file that is there. -/
def install (d : Disk) (p : Path) (bytes : List UInt8) (now : Instant) : Except Fault Disk := do
  let t ← d.target p
  match t.name with
  | none => .error .busy
  | some name =>
    let l ← child t.parent name
    if t.endsInSlash then .error .notADirectory
    else
      match d.item? l with
      | some (.directory _) => .error .isADirectory
      | _ => .ok (d.place l (.file bytes now) now)

/-- **The file at a path removed.** -/
def remove (d : Disk) (p : Path) (now : Instant) : Except Fault Disk := do
  let t ← d.target p
  match t.name with
  | none => .error .isADirectory
  | some name =>
    let l ← child t.parent name
    match d.item? l with
    | none => .error .notFound
    | some (.directory _) => .error .isADirectory
    | some (.file ..) => if t.endsInSlash then .error .notADirectory else .ok (d.takeAway l now)

/-! ## Directories -/

/-- **A directory made at a path.** -/
def makeDirectory (d : Disk) (p : Path) (now : Instant) : Except Fault Disk := do
  let t ← d.target p
  match t.name with
  | none => .error .alreadyExists
  | some name =>
    let l ← child t.parent name
    if (d.item? l).isSome then .error .alreadyExists
    else .ok (d.place l (.directory now) now)

/-- Makes the first of some paths, each of which is the parent of the one before it: right away if
that works, and after its parents if something is missing. -/
def makeAll (now : Instant) : List Path → Disk → Except Fault Unit × Disk
  | [], d => (.ok (), d)
  | p :: parents, d =>
    if p.components.isEmpty then (.ok (), d)
    else
      match d.makeDirectory p now with
      | .ok d' => (.ok (), d')
      -- Only a missing parent sends it up; any other fault is final, unless the directory is there.
      | .error .notFound =>
        match makeAll now parents d with
        | (.error fault, d') => (.error fault, d')
        | (.ok (), d') =>
          match d'.makeDirectory p now with
          | .ok d'' => (.ok (), d'')
          | .error fault => (if d'.isDirectory p then .ok () else .error fault, d')
      | .error fault => (if d.isDirectory p then .ok () else .error fault, d)

/-- Makes the first of some paths as `makeAll` does, with a way of its own to make each. -/
def makeAllBy (make : Disk → Path → Except Fault Disk) : List Path → Disk → Except Fault Unit × Disk
  | [], d => (.ok (), d)
  | p :: parents, d =>
    if p.components.isEmpty then (.ok (), d)
    else
      match make d p with
      | .ok d' => (.ok (), d')
      | .error .notFound =>
        match makeAllBy make parents d with
        | (.error fault, d') => (.error fault, d')
        | (.ok (), d') =>
          match make d' p with
          | .ok d'' => (.ok (), d'')
          | .error fault => (if d'.isDirectory p then .ok () else .error fault, d')
      | .error fault => (if d.isDirectory p then .ok () else .error fault, d)

theorem makeAllBy_makeDirectory (now : Instant) :
    makeAllBy (fun d p => d.makeDirectory p now) = makeAll now := by
  funext paths
  induction paths with
  | nil => rfl
  | cons p parents ih =>
    funext d
    rw [makeAllBy, makeAll, ih]

/-- **The directory at a path made, with all that are missing above it.** A directory that is there
already is no fault. What was made before a fault stays. -/
def makeDirectories (d : Disk) (p : Path) (now : Instant) : Except Fault Unit × Disk :=
  makeAll now p.ancestors d

/-- The time of the file or directory at a path set. -/
def touch (d : Disk) (p : Path) (t : Instant) : Except Fault Disk := do
  let l ← d.find p
  .ok (d.stamp l t)

end AltRender.Disk

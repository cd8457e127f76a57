import AltRender.Cache.Staging

/-!
# `Cache/Traffic` — writes and clears at the same time

Nothing keeps two programs, or two parts of one, from writing and clearing the same cache at once.
Each write goes its way in steps: it makes directories, creates its temporary file, appends its
bytes to it a few at a time, and renames it; and if it has failed, it takes the temporary file away
again. A clear goes its own way from name to name, and does not know a temporary file from an entry.
Who makes the next step is left open, and so is where a step fails.

A write that has the disk to itself does what `writeStaged` does, and so does a clear
(`Proofs/Cache/Alone`).
-/

set_option autoImplicit false

namespace AltRender.Cache

open AltRender.Disk

/-! ## Writes -/

/-- Bytes for the entry at a path. -/
structure Delivery where
  path : Path
  bytes : List UInt8
  /-- Where the temporary file goes if the path has no parent. -/
  fallback : Path
  temporary : String
  deriving DecidableEq

namespace Delivery

def directory (j : Delivery) : Path :=
  j.path.parent?.getD j.fallback

def temporaryPath (j : Delivery) : Path :=
  j.directory.join ⟨j.temporary⟩

/-- How far a write has come. -/
inductive Progress where
  | making
  /-- The temporary file was created, and has taken some of the bytes. -/
  | filling (taken left : List UInt8)
  /-- Something failed, and the temporary file is to be taken away. -/
  | discarding (fault : Fault)
  | done (result : Except Fault Unit)

/-- What a write may do next. -/
inductive Act where
  /-- A directory is made, or cannot be. -/
  | make (p : Path)
  | create
  | append (n : Nat)
  | rename
  /-- The surroundings refuse what would be next. -/
  | fail (fault : Fault)
  | discard

/-- The next bytes appended to the temporary file. If it was removed meanwhile, they go to a file
that has no name. -/
def append (j : Delivery) (d : Disk) (taken : List UInt8) (now : Instant) : Disk :=
  if d.isFile j.temporaryPath then
    match d.write j.temporaryPath taken now with
    | .ok d' => d'
    | .error _ => d
  else d

/-- **One step of a write.** What cannot be next changes nothing. -/
def advance (j : Delivery) (now : Instant) (d : Disk) : Progress → Act → Progress × Disk
  | .making, .make p =>
    if p ∈ j.directory.ancestors then
      match d.makeDirectory p now with
      | .ok d' => (.making, d')
      | .error _ => (.making, d)
    else (.making, d)
  | .making, .create =>
    match d.create j.temporaryPath now with
    | .ok d' => (.filling [] j.bytes, d')
    | .error fault => (.done (.error fault), d)
  | .making, .fail fault => (.done (.error fault), d)
  | .filling taken left, .append n =>
    (.filling (taken ++ left.take n) (left.drop n), j.append d (taken ++ left.take n) now)
  | .filling _ [], .rename =>
    match d.rename j.temporaryPath j.path now with
    | .ok d' => (.done (.ok ()), d')
    | .error fault => (.discarding fault, d)
  | .filling _ _, .fail fault => (.discarding fault, d)
  | .discarding fault, .discard => (.done (.error fault), (removeFile d j.temporaryPath now).2)
  -- Even a file that cannot be taken away is left at that.
  | .discarding fault, .fail _ => (.done (.error fault), d)
  | progress, _ => (progress, d)

end Delivery

/-! ## All of them -/

/-- A disk, and how far each write on it has come. -/
structure Traffic where
  disk : Disk
  deliveries : List (Delivery × Delivery.Progress)

/-- A step of somebody. -/
inductive Move where
  | deliver (i : Nat) (act : Delivery.Act)
  /-- A single entry is cleared. -/
  | clear (p : Path)
  /-- A clear of a directory comes to a name, and removes what it is the name of if it is a file and
  passes the test. -/
  | sweep (directory : Path) (test : String → Bool) (name : String)

namespace Traffic

/-- Writes that are all still to be made. -/
def ofDeliveries (d : Disk) (deliveries : List Delivery) : Traffic :=
  ⟨d, deliveries.map fun j => (j, .making)⟩

/-- What stands on the disk when a clear has passed a name. -/
def swept (d : Disk) (directory : Path) (test : String → Bool) (now : Instant) (name : String) :
    Disk :=
  if d.isFile (directory.join ⟨name⟩) && test name then (removeFile d (directory.join ⟨name⟩) now).2
    else d

/-- **The next step.** -/
def step (x : Traffic) (now : Instant) : Move → Traffic
  | .deliver i act =>
    match x.deliveries[i]? with
    | none => x
    | some (j, progress) =>
      let (progress', d') := j.advance now x.disk progress act
      ⟨d', x.deliveries.set i (j, progress')⟩
  | .clear p => { x with disk := (removeFile x.disk p now).2 }
  | .sweep directory test name => { x with disk := swept x.disk directory test now name }

/-- **Steps one after the other,** whoever makes them. -/
def run (x : Traffic) (moves : List (Instant × Move)) : Traffic :=
  moves.foldl (fun x move => x.step move.1 move.2) x

/-- What some steps of writes and clears make of a disk. -/
def after (d : Disk) (deliveries : List Delivery) (moves : List (Instant × Move)) : Traffic :=
  (ofDeliveries d deliveries).run moves

end Traffic

end AltRender.Cache

import AltRender.Command.Reach
import AltRender.Disk.Difference

/-!
# `Main` — the program

The program finds out what is in the part of the file system its command line is about, runs the
command on that, brings the changes back and prints what the command printed. Time does not pass
while a command runs: what it writes counts as changed when the latest thing it looked at was.

All of this is about getting a disk and giving one back; what the program does on a disk is
`Command.run`, which is a function and which everything is proved about. A file that stands in a
region but is not read has no bytes there, and those that are read are fetched once it is known
which they are.
-/

set_option autoImplicit false

namespace AltRender.Program

open AltRender.Disk

/-! ## Looking -/

def pathTo (l : Location) : String :=
  "/" ++ String.intercalate "/" l

/-- What stands at a location; a file comes without its bytes. -/
def glance (l : Location) : IO (Option Item) := do
  try
    let place ← IO.FS.realPath (pathTo l)
    let data ← place.metadata
    let changed : Instant := ⟨data.modified.sec * 1000000000 + data.modified.nsec.toNat⟩
    match data.type with
    | .file => return some (.file [] changed)
    | .dir => return some (.directory changed)
    | _ => return none
  catch _ => return none

/-- The disk with what stands at a location. -/
def visit (d : Disk) (l : Location) : IO Disk := do
  return match ← glance l with
    | some item => d.noting l item
    | none => d

def namesIn (l : Location) : IO (List String) := do
  try
    let place ← IO.FS.realPath (pathTo l)
    return (← place.readDir).toList.map fun entry => entry.fileName
  catch _ => return []

/-- Whether what stands at a location is a link to something else. -/
def isLink (l : Location) : IO Bool := do
  try
    let directory ← IO.FS.realPath (pathTo l.dropLast)
    let place ← IO.FS.realPath (pathTo l)
    return place != directory / (l.getLast?.getD "")
  catch _ => return true

/-- The disk with what stands below a location, to a depth. Links to directories are not entered. -/
partial def visitBelow (depth : Option Nat) (d : Disk) (l : Location) : IO Disk := do
  if depth == some 0 then return d
  if !d.isDirectoryAt l then return d
  (← namesIn l).foldlM (fun d name => do
    let next := l ++ [name]
    let d ← visit d next
    if ← isLink next then return d
    visitBelow (depth.map fun n => n - 1) d next) d

/-- The disk with everything in a region. -/
def survey (d : Disk) (r : Region) : IO Disk := do
  let way := waypoints d.start r.top
  let d ← way.foldlM visit d
  visitBelow r.depth d (way.getLast?.getD d.start)

def fetchBytes (d : Disk) (p : Disk.Path) : IO Disk := do
  match d.find p with
  | .error _ => return d
  | .ok l =>
    match d.item? l with
    | some (.file _ changed) =>
      try
        let bytes ← IO.FS.readBinFile (pathTo l)
        return d.noting l (.file bytes.data.toList changed)
      catch _ => return d
    | _ => return d

/-! ## Running -/

/-- The disk with what a request is about. -/
def surveyFor (d : Disk) (r : Command.Request) : IO Disk := do
  let d ← r.config.toList.foldlM (fun d p => do fetchBytes (← survey d ⟨p, some 0⟩) p) d
  match Command.effectiveSettings d r with
  | .error _ => return d
  | .ok s =>
    let d ← (Command.regions s r.task).foldlM survey d
    (Command.filesRead s d r.task).foldlM fetchBytes d

/-- The disk as a program finds it that was started in a directory, with what its command line is
about. -/
def found (start : Location) (arguments : List String) : IO Disk := do
  let d ← (waysTo start).foldlM visit { Disk.empty with start := start }
  match Command.read arguments with
  | .ok (.request r) => surveyFor d r
  | _ => return d

def carryOut : Alteration → IO Unit
  | .removeFile l => IO.FS.removeFile (pathTo l)
  | .makeDirectory l => IO.FS.createDir (pathTo l)
  | .writeFile l bytes => IO.FS.writeBinFile (pathTo l) ⟨bytes.toArray⟩

/-- **The program.** It runs the command that the arguments ask for, with the codec that it was
built with, and gives the exit code. -/
def main (codec : Codec) (arguments : List String) : IO UInt32 := do
  let here ← IO.currentDir
  let start := (Text.cut '/' here.toString.toList).filterMap fun piece =>
    if piece.isEmpty then none else some (String.ofList piece)
  let d ← found start arguments
  let outcome := Command.run codec d d.latest arguments
  (Disk.difference d outcome.disk).forM carryOut
  IO.print outcome.out
  IO.eprint outcome.err
  return UInt32.ofNat outcome.exitCode

end AltRender.Program

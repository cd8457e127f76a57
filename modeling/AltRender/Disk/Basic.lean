import AltRender.Disk.Fault
import AltRender.Disk.Instant
import AltRender.Disk.Path
import AltRender.Keyed

/-!
# `Disk` — files and directories

A disk holds files and directories at *locations*, the names on the way from the top. A path leads
to a location by a walk: each of its pieces is looked up in the directory reached so far, `.` stays
and `..` goes one up, and the walk ends where a name is missing or a file stands in the way. So a
path that is redundant as a text (`a//b/./c/..`) is no different from a plain one as long as
everything on its way exists.

This file has what can be asked of a disk; `Disk/Change` has what can be done to it.
-/

set_option autoImplicit false

namespace AltRender

open AltRender.Text

/-- The names on the way from the top to a file or directory. -/
abbrev Location := List String

namespace Disk

/-- What stands at a location. Both kinds know when they were changed last. -/
inductive Item where
  | file (bytes : List UInt8) (changed : Instant)
  | directory (changed : Instant)
  deriving DecidableEq, Repr

namespace Item

def changed : Item → Instant
  | .file _ t => t
  | .directory t => t

def isFile : Item → Bool
  | .file .. => true
  | .directory _ => false

def withChanged (t : Instant) : Item → Item
  | .file bytes _ => .file bytes t
  | .directory _ => .directory t

end Item

end Disk

/-- Files and directories by location, and the directory that relative paths start from. The top is
always a directory. -/
structure Disk where
  items : Keyed Location Disk.Item
  start : Location

namespace Disk

def empty : Disk := ⟨Keyed.empty, []⟩

instance : Inhabited Disk := ⟨empty⟩

/-! ## Locations -/

/-- What stands at a location. -/
def item? (d : Disk) (l : Location) : Option Item :=
  if l.isEmpty then some (.directory ⟨0⟩) else d.items.get? l

def isDirectoryAt (d : Disk) (l : Location) : Bool :=
  match d.item? l with
  | some (.directory _) => true
  | _ => false

/-! ## Walking -/

def nameLimit : Nat := 255

/-- The number of bytes from which a path is too long. -/
def pathLimit : Nat := 4096

def isDots (piece : List Char) : Bool :=
  piece == ['.'] || piece == ['.', '.']

/-- One piece of a path, from a location that exists. -/
def step (d : Disk) (l : Location) (piece : List Char) : Except Fault Location :=
  if !d.isDirectoryAt l then .error .notADirectory
  else if piece = ['.'] then .ok l
  else if piece = ['.', '.'] then .ok l.dropLast
  else if nameLimit < byteLength piece then .error .nameTooLong
  else if (d.item? (l ++ [String.ofList piece])).isSome then .ok (l ++ [String.ofList piece])
  else .error .notFound

/-- The pieces of a path one after the other. -/
def walk (d : Disk) (l : Location) (pieces : List (List Char)) : Except Fault Location :=
  pieces.foldlM d.step l

/-- Where a path starts, its pieces that are not empty, and whether it ends in a slash. -/
structure Route where
  origin : Location
  pieces : List (List Char)
  endsInSlash : Bool

def route (d : Disk) (p : Path) : Except Fault Route :=
  if p.text.toList.any (fun c => c.toNat = 0) then .error .nulInName
  else if p.text.isEmpty then .error .notFound
  else if pathLimit ≤ byteLength p.text.toList then .error .nameTooLong
  else
    .ok ⟨if p.isAbsolute then [] else d.start, p.pieces.filter (fun piece => !piece.isEmpty),
      p.text.toList.getLast? = some '/'⟩

/-- **The location that a path leads to.** A path that ends in a slash leads to directories only. -/
def find (d : Disk) (p : Path) : Except Fault Location := do
  let route ← d.route p
  let l ← d.walk route.origin route.pieces
  if route.endsInSlash && !d.isDirectoryAt l then .error .notADirectory
  else .ok l

/-- Where something is to be put: a directory that exists and a name in it, if the path ends in
one. -/
structure Target where
  parent : Location
  name : Option (List Char)
  endsInSlash : Bool

/-- The target that a path describes: its last piece need not exist. -/
def target (d : Disk) (p : Path) : Except Fault Target := do
  let route ← d.route p
  match route.pieces.getLast? with
  | none => .ok ⟨[], none, route.endsInSlash⟩
  | some last =>
    let parent ← d.walk route.origin route.pieces.dropLast
    -- The walk checks only directories it steps out of, so the one it ends in is checked here.
    if !d.isDirectoryAt parent then .error .notADirectory
    else .ok ⟨parent, if isDots last then none else some last, route.endsInSlash⟩

/-- The location of a name in a directory, if the name is not too long. -/
def child (parent : Location) (name : List Char) : Except Fault Location :=
  if nameLimit < byteLength name then .error .nameTooLong else .ok (parent ++ [String.ofList name])

/-! ## Asking -/

/-- What stands at a path. -/
def look (d : Disk) (p : Path) : Except Fault Item := do
  let l ← d.find p
  match d.item? l with
  | some item => .ok item
  | none => .error .notFound

def isFile (d : Disk) (p : Path) : Bool :=
  match d.look p with
  | .ok item => item.isFile
  | .error _ => false

def isDirectory (d : Disk) (p : Path) : Bool :=
  match d.look p with
  | .ok item => !item.isFile
  | .error _ => false

/-- **The bytes of the file at a path.** -/
def read (d : Disk) (p : Path) : Except Fault (List UInt8) := do
  match ← d.look p with
  | .file bytes _ => .ok bytes
  | .directory _ => .error .isADirectory

def readText (d : Disk) (p : Path) : Except Fault String := do
  let bytes ← d.read p
  match String.fromUTF8? ⟨bytes.toArray⟩ with
  | some text => .ok text
  | none => .error .invalidText

/-- The names in the directory at a location. -/
def namesAt (d : Disk) (l : Location) : List String :=
  d.items.entries.filterMap fun e => if e.1.dropLast = l then e.1.getLast? else none

/-- **The names in the directory at a path.** -/
def names (d : Disk) (p : Path) : Except Fault (List String) := do
  let l ← d.find p
  if d.isDirectoryAt l then .ok (d.namesAt l) else .error .notADirectory

end Disk

end AltRender

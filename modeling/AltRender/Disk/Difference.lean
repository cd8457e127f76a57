import AltRender.Disk.Basic

/-!
# `Disk/Difference` — how one disk becomes another

The difference between a disk before and after a command is a list of alterations that can be
carried out one after the other: a directory is made before anything is put into it. Directories are
never removed, because no command does.

Removals come first. A file whose bytes or time have changed is written anew as a whole; its time is
then that of the writing, as it would have been for the command itself.
-/

set_option autoImplicit false

namespace AltRender.Disk

/-- One thing done to a disk. -/
inductive Alteration where
  | removeFile (l : Location)
  | makeDirectory (l : Location)
  | writeFile (l : Location) (bytes : List UInt8)
  deriving DecidableEq, Repr

/-- What has to be removed: a file that is no longer there. -/
def removal? (after : Disk) (l : Location) (item : Item) : Option Alteration :=
  if item.isFile && (after.item? l).isNone then some (.removeFile l) else none

/-- What has to be made or written: a new directory, and a file that is new or was changed. -/
def addition? (before : Disk) (l : Location) : Item → Option Alteration
  | .directory _ => if before.isDirectoryAt l then none else some (.makeDirectory l)
  | .file bytes changed =>
    if before.item? l = some (.file bytes changed) then none else some (.writeFile l bytes)

/-- **The alterations from one disk to another.** -/
def difference (before after : Disk) : List Alteration :=
  -- Directories are made before what is in them, since the order is that in which they were made.
  before.items.entries.filterMap (fun e => removal? after e.1 e.2) ++
    after.items.entries.filterMap (fun e => addition? before e.1 e.2)

end AltRender.Disk

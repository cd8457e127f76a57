import AltRender.Cache.Name
import AltRender.Cache.Tally
import AltRender.Disk.Basic

/-!
# `Cache` — where entries are and whether they are current

A cache is a directory, given relative to the vault, and the count of what was done with it. An
entry is current if it is at least as new as its source, both in whole milliseconds. The entry of a
remote source, which has no time of change, is current as soon as it is there. An entry from before
1970 has no such time and is never current.

A check counts as a hit or a miss, and changes nothing else. It asks for the time at the path of the
entry and for nothing more, so a directory that stands there is taken for an entry too, and what a
file holds plays no part.
-/

set_option autoImplicit false

namespace AltRender

open AltRender.Disk

/-- A directory of entries and the count of what was done with them. -/
structure Cache where
  vaultRoot : Path
  directory : Path
  tally : Tally
  deriving DecidableEq, Repr

namespace Cache

/-- The cache in a directory of a vault, before anything was done. -/
def ofDirectory (vaultRoot directory : Path) : Cache :=
  ⟨vaultRoot, directory, Tally.zero⟩

/-! ## Paths -/

/-- The path of the directory, with that of the vault before it. -/
def absoluteDirectory (c : Cache) : Path :=
  c.vaultRoot.join c.directory

def entryPath (c : Cache) (s : Source) (signatures : List String) (theme : Option Theme) : Path :=
  c.absoluteDirectory.join ⟨entryName s signatures theme⟩

def relativeEntryPath (c : Cache) (s : Source) (signatures : List String) (theme : Option Theme) :
    Path :=
  c.directory.join ⟨entryName s signatures theme⟩

/-! ## Checks -/

/-- Whether an item is new enough for a source. -/
def isCurrentFor (s : Source) (item : Item) : Bool :=
  match item.changed.milliseconds? with
  | some t => s.isRemote || s.modified ≤ t
  | none => false

/-- **Whether there is a current entry.** Nothing that goes wrong on the way makes one. -/
def isCurrent (c : Cache) (d : Disk) (s : Source) (signatures : List String)
    (theme : Option Theme) :
    Bool :=
  match d.look (c.entryPath s signatures theme) with
  | .ok item => isCurrentFor s item
  | .error _ => false

def check (c : Cache) (d : Disk) (s : Source) (signatures : List String) (theme : Option Theme) :
    Bool × Cache :=
  let hit := c.isCurrent d s signatures theme
  (hit, { c with tally := c.tally.addCheck hit })

end Cache

end AltRender

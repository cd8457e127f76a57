import AltRender.Disk.Basic

/-!
# `Disk/Region` — the part of a disk that matters

Most of what is on a disk has nothing to do with what is asked of it. A region is a path and how far
below it things matter. What is on the way to the path matters as well, because a walk looks at
every directory it passes.

The same locations are where directories can come into being: making the directories of a path makes
only what lies on the way there (`waypoints`). A path may pass a place and leave it again by going
up, and the place counts all the same.
-/

set_option autoImplicit false

namespace AltRender.Disk

/-- A path, and how many levels below it matter; all of them if there is no number. -/
structure Region where
  top : Path
  depth : Option Nat

/-- The location one component further on. -/
def onward (l : Location) : Component → Location
  | .root => []
  | .here => l
  | .up => l.dropLast
  | .name s => l ++ [s]

/-- The locations that components pass, the last of them first. -/
def passed (start : Location) (components : List Component) : List Location :=
  components.foldl (fun ls c => onward (ls.headD start) c :: ls) [start]

/-- The locations that a walk along a path passes, from where it starts to where it ends. -/
def waypoints (start : Location) (p : Path) : List Location :=
  (passed start p.components).reverse

/-- All locations on the way from the top to a location, itself included. -/
def waysTo (l : Location) : List Location :=
  (List.range (l.length + 1)).map l.take

/-- The disk with something known to stand at a location. -/
def noting (d : Disk) (l : Location) (item : Item) : Disk :=
  if l.isEmpty then d else { d with items := d.items.insert l item }

def latest (d : Disk) : Instant :=
  d.items.entries.foldl (fun t e => if t.nanoseconds < e.2.changed.nanoseconds then e.2.changed
    else t) ⟨0⟩

end AltRender.Disk

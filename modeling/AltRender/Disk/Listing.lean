import AltRender.Disk.Basic
import AltRender.Text.Cut

/-!
# `Disk/Listing` — everything below a directory

A listing names all files and directories below a location by their paths from there, in the order
of the bytes of their UTF-8 form. Directories end in a slash.

A listing says nothing about times or bytes. It is how a pattern of any number of directories looks
around, and how a disk is shown as a whole; both need an order that does not depend on when things
were put on the disk.
-/

set_option autoImplicit false

namespace AltRender.Disk

open AltRender.Text

/-- Whether a text comes before another or is the same, by the bytes of their UTF-8 form. The order
of bytes is that of the characters' numbers. -/
def byteOrder (s t : String) : Bool :=
  !(t.toList.map Char.toNat < s.toList.map Char.toNat)

def pathBelow (l below : Location) : String :=
  String.intercalate "/" (below.drop l.length)

/-- **The paths of everything below a location,** sorted. -/
def listing (d : Disk) (l : Location) : List String :=
  let below := d.items.entries.filter fun e => l.isPrefixOf e.1 && l.length < e.1.length
  let lines := below.map fun e => pathBelow l e.1 ++ (if e.2.isFile then "" else "/")
  lines.mergeSort byteOrder

end AltRender.Disk

import AltRender.Cache.Basic
import AltRender.Disk.Change
import AltRender.Text.Occurrence

/-!
# `Cache/Change` — writing and removing entries

Writing an entry makes the directory it is in and then puts the finished file into place in one
step, so a reader sees the old entry or the new one and nothing in between; it is the only thing
here that can fail. Removing does what can be done: an entry that is not there, or cannot be
removed, is passed over.

What was written is counted as one entry, and what was removed as so many. A clear goes through the
names in the directory of the cache as they stand, so it removes what another program has put there
as well, if the name satisfies the test. Directories are left alone.
-/

set_option autoImplicit false

namespace AltRender.Cache

open AltRender.Disk AltRender.Text

/-- **Bytes written to the entry at a path.** If the file cannot be put into place, directories made
for it stay. -/
def write (c : Cache) (d : Disk) (p : Path) (bytes : List UInt8) (now : Instant) :
    Except Fault Unit × Cache × Disk :=
  match d.makeDirectories (p.parent?.getD c.absoluteDirectory) now with
  | (.error fault, d') => (.error fault, c, d')
  | (.ok (), d') =>
    match d'.install p bytes now with
    | .error fault => (.error fault, c, d')
    | .ok d'' => (.ok (), { c with tally := c.tally.addWrite }, d'')

theorem entryPath_write (c : Cache) (d : Disk) (p : Path) (bytes : List UInt8) (now : Instant) :
    (c.write d p bytes now).2.1.entryPath = c.entryPath := by
  unfold write
  split
  · rfl
  · split <;> rfl

/-- The file at a path removed, if there is one, and how many that makes. -/
def removeFile (d : Disk) (p : Path) (now : Instant) : Nat × Disk :=
  match d.remove p now with
  | .ok d' => (1, d')
  | .error _ => (0, d)

def clear (c : Cache) (d : Disk) (s : Source) (signatures : List String) (theme : Option Theme)
    (now : Instant) : Cache × Disk :=
  let (n, d') := removeFile d (c.entryPath s signatures theme) now
  ({ c with tally := c.tally.addEvictions n }, d')

/-- The files of a directory whose names satisfy a test removed, and how many there were. -/
def removeMatching (directory : Path) (d : Disk) (test : String → Bool) (now : Instant) :
    Nat × Disk :=
  match d.names directory with
  | .error _ => (0, d)
  | .ok names =>
    names.foldl (fun (count, d) name =>
      let p := directory.join ⟨name⟩
      if d.isFile p && test name then
        let (n, d') := removeFile d p now
        (count + n, d')
      else (count, d)) (0, d)

/-- **All entries of a source removed,** whatever chain and theme they are for: the files that have
its fingerprint in their names. -/
def clearSource (c : Cache) (d : Disk) (s : Source) (now : Instant) : Nat × Cache × Disk :=
  let mark := (fingerprint s).toList
  let (n, d') := removeMatching c.absoluteDirectory d (fun name => occursIn mark name.toList) now
  (n, { c with tally := c.tally.addEvictions n }, d')

/-- **All files in the directory removed.** -/
def clearAll (c : Cache) (d : Disk) (now : Instant) : Nat × Cache × Disk :=
  let (n, d') := removeMatching c.absoluteDirectory d (fun _ => true) now
  (n, { c with tally := c.tally.addEvictions n }, d')

/-- The cache in another directory, which is made if it can be. Entries stay where they are. -/
def moveTo (c : Cache) (d : Disk) (directory : Path) (now : Instant) : Cache × Disk :=
  let c' := { c with directory := directory }
  (c', (d.makeDirectories c'.absoluteDirectory now).2)

end AltRender.Cache

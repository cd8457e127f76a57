import AltRender.Disk.Listing
import AltRender.Glob.Pattern

/-!
# `Glob/Search` — the paths a pattern leads to

A pattern with slashes is a pattern for each component of a path. A search goes down a disk
component by component: a component that stands for itself is looked up, any other one is compared
with all names in the directory, in order, and two stars stand for the directory itself and
everything below it. Names that begin with a point are names like any other; `.` and `..` are found
only by components that begin with a point.

Paths come out as the pattern writes them: below the directory the search starts from there is no
`./` before them.
-/

set_option autoImplicit false

namespace AltRender.Glob

open AltRender.Disk AltRender.Text

/-! ## Names in order -/

/-- The location that is the first of two by the order of the names on the way. -/
def locationOrder (l m : Location) : Bool :=
  !(m.map (fun s => s.toList.map Char.toNat) < l.map (fun s => s.toList.map Char.toNat))

/-- The locations of everything below a location, each directory before what is in it. -/
def below (d : Disk) (l : Location) : List Location :=
  ((d.items.entries.map Prod.fst).filter fun m =>
    l.isPrefixOf m && l.length < m.length).mergeSort locationOrder

/-- Whether a path is that of the directory searches start from. -/
def isStart (p : Path) : Bool :=
  p.components == [.here]

/-- What stands before the names in the directory at a path. -/
def base (p : Path) : Path :=
  if isStart p then ⟨""⟩ else p

def joinNames (p : Path) (names : List String) : Path :=
  names.foldl (fun p name => p.join ⟨name⟩) p

/-- The paths of everything below the directory at a path, each directory before what is in it. -/
def pathsBelow (d : Disk) (p : Path) : List Path :=
  match d.find p with
  | .error _ => []
  | .ok l => (below d l).map fun m => joinNames (base p) (m.drop l.length)

def pathsIn (d : Disk) (p : Path) : List Path :=
  match d.names p with
  | .error _ => []
  | .ok names => (names.mergeSort byteOrder).map fun name => (base p).join ⟨name⟩

/-- Whether a pattern stands for the last name of a path. -/
def fitsName (q : Pattern) (p : Path) : Bool :=
  match p.fileName? with
  | some name => q.fits name.toList
  | none => false

/-! ## Searching -/

def exists? (d : Disk) (p : Path) : Bool :=
  match d.look p with
  | .ok _ => true
  | .error _ => false

/-- The path of a component that stands for itself, if it leads anywhere. -/
def literalPath? (d : Disk) (p : Path) (name : String) : Option Path :=
  let next := (base p).join ⟨name⟩
  if name = "." ∨ name = ".." then (if d.isDirectory p then some next else none)
  else if exists? d next then some next
  else none

/-- Those of `..` and `.` that a pattern stands for, which has to begin with a point. -/
def dotPaths (q : Pattern) (p : Path) : List Path :=
  if q.head? = some (.char '.') then
    (["..", "."].filter fun name => q.fits name.toList).map fun name => p.join ⟨name⟩
  else []

/-- **The paths that patterns for their components lead to,** from a path on. -/
def expand (d : Disk) : List Pattern → Path → List Path
  | [], p => [p]
  | q :: rest, p =>
    match q.literal? with
    | some name =>
      match literalPath? d p (String.ofList name) with
      | some next => expand d rest next
      | none => []
    | none =>
      if !d.isDirectory p then []
      else if q.isAnyPath then
        match rest with
        | [] => (pathsBelow d p).filter d.isDirectory
        | r :: rest =>
          -- Any number of directories twice is the same as once.
          if r.isAnyPath then expand d (r :: rest) p
          else (pathsBelow d p).flatMap fun next =>
            if fitsName r next then expand d rest next else []
      else
        (dotPaths q p).flatMap (expand d rest) ++
          (pathsIn d p).flatMap fun next => if fitsName q next then expand d rest next else []

/-! ## Patterns for paths -/

/-- A search: where it starts, the patterns of the components, and whether it is for directories
only. -/
structure Search where
  scope : Path
  components : List Pattern
  directoriesOnly : Bool
  deriving DecidableEq, Repr

/-- The pieces of a text between slashes; there is none behind a slash at the end. -/
def piecesOf (text : List Char) : List (List Char) :=
  let pieces := cut '/' text
  if pieces.getLast? = some [] then pieces.dropLast else pieces

/-- **The search that a text writes.** The whole text has to be a pattern, and then each of its
components. -/
def Search.ofText (text : String) : Except PatternFault Search := do
  let cs := text.toList
  let _ ← parse cs
  let fromTop := cs.head? == some '/'
  let body := if fromTop then cs.drop 1 else cs
  let components ← (piecesOf body).mapM parse
  .ok ⟨if fromTop then ⟨"/"⟩ else ⟨"."⟩, if body.isEmpty then [[]] else components,
    cs.getLast? == some '/'⟩

/-- **The paths that a search finds,** in order. -/
def Search.run (s : Search) (d : Disk) : List Path :=
  (expand d s.components s.scope).filter fun p => !s.directoriesOnly || d.isDirectory p

end AltRender.Glob

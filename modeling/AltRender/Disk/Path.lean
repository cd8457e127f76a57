import AltRender.Text.Cut
import AltRender.Text.Letters

/-!
# `Disk/Path` — paths as texts

A path is a text, and stays one: joining, taking the parent or cutting off a leading directory works
on the text, and whatever was doubled or redundant in it (`a//b`, `a/./b`) is still there
afterwards. Only the *components* of a path leave such things out: empty pieces, and `.` anywhere
but at the start of a relative path.

What a path means on a disk is another matter (`Disk/Basic`): there a dot needs a directory to stand
in, and two dots may leave one that the text has just named. Here no disk is asked, so two dots are
a component that stays.
-/

set_option autoImplicit false

namespace AltRender.Disk

open AltRender.Text

structure Path where
  text : String
  deriving DecidableEq, Repr, Inhabited

/-- A meaningful part of a path. -/
inductive Component where
  /-- The slash that an absolute path starts with. -/
  | root
  /-- The `.` that a relative path may start with. -/
  | here
  | up
  /-- Anything else. -/
  | name (s : String)
  deriving DecidableEq, Repr

namespace Path

/-! ## Components -/

def isAbsolute (p : Path) : Bool :=
  p.text.toList.head? == some '/'

def pieces (p : Path) : List (List Char) :=
  cut '/' p.text.toList

/-- Whether a piece has no meaning: it is empty, or the dot that stands for the directory it is
in. -/
def isRedundant (piece : List Char) : Bool :=
  piece == [] || piece == ['.']

/-- The component a piece stands for, away from the start of a path. -/
def component? (piece : List Char) : Option Component :=
  if isRedundant piece then none
  else if piece = ['.', '.'] then some .up
  else some (.name (String.ofList piece))

/-- **The components of a path.** -/
def components (p : Path) : List Component :=
  match p.pieces with
  | [] => []
  | first :: rest =>
    let start :=
      if p.isAbsolute then [.root] else if first = ['.'] then [.here] else (component? first).toList
    start ++ rest.filterMap component?

/-! ## Joining -/

/-- **One path after another.** An absolute second path replaces the first; else there is a slash
between them, unless the first is empty or ends in one. -/
def join (base rest : Path) : Path :=
  if rest.isAbsolute then rest
  else if base.text.toList.isEmpty || base.text.toList.getLast? == some '/'
    then ⟨base.text ++ rest.text⟩
  else ⟨base.text ++ "/" ++ rest.text⟩

/-! ## Names -/

def fileName? (p : Path) : Option String :=
  match p.components.getLast? with
  | some (.name s) => some s
  | _ => none

/-- A name up to its last point; all of it if there is no point, or only one at its start. -/
def stem (name : List Char) : List Char :=
  match name.reverse.dropWhile (· != '.') with
  | [] => name
  | _ :: front => if front.isEmpty then name else front.reverse

/-- The last component without its extension, if it is a name. -/
def fileStem? (p : Path) : Option String :=
  p.fileName?.map fun s => String.ofList (stem s.toList)

/-! ## Parents and leading directories -/

/-- The pieces without the meaningless ones at the end. -/
def dropRedundantEnd (pieces : List (List Char)) : List (List Char) :=
  (pieces.reverse.dropWhile isRedundant).reverse

def ofPieces (pieces : List (List Char)) : Path :=
  ⟨String.ofList (glue '/' pieces)⟩

/-- **The path without its last component.** A single name has the empty path as parent; the empty
path and the top have none. -/
def parent? (p : Path) : Option Path :=
  match p.pieces with
  | [] => none
  | first :: rest =>
    -- The first piece is empty in an absolute path and has to stay, so only the others are trimmed.
    match dropRedundantEnd rest with
    | [] => if first.isEmpty then none else some ⟨""⟩
    | body =>
      match dropRedundantEnd body.dropLast with
      | [] => if first.isEmpty then some ⟨"/"⟩ else some ⟨String.ofList first⟩
      | body => some (ofPieces (first :: body))

/-- The path, its parent, the parent of that and so on, `n` parents at most. -/
def ancestorsUpTo : Nat → Path → List Path
  | 0, p => [p]
  | n + 1, p =>
    match p.parent? with
    | none => [p]
    | some q => p :: ancestorsUpTo n q

/-- The path and all its parents. Each has one component less than the one before. -/
def ancestors (p : Path) : List Path :=
  ancestorsUpTo p.components.length p

/-- The pieces that follow the first `n` components, meaningless ones at either end dropped. -/
def dropComponents : Nat → List (List Char) → List (List Char)
  | 0, pieces => pieces.dropWhile isRedundant
  | n + 1, pieces => dropComponents n ((pieces.dropWhile isRedundant).drop 1)

/-- **What follows a leading directory,** if the path's components start with those of the
directory. -/
def stripLeading? (p : Path) (directory : Path) : Option Path :=
  let lead := directory.components
  if !lead.isPrefixOf p.components then none
  else
    match p.pieces, lead.length with
    | [], _ => some p
    | first :: rest, 0 => some (ofPieces (first :: dropRedundantEnd rest))
    | first :: rest, n + 1 =>
      let body := if p.isAbsolute || first = ['.'] then dropComponents n rest
        else dropComponents (n + 1) (first :: rest)
      some (ofPieces (dropRedundantEnd body))

end Path

end AltRender.Disk

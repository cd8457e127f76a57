import AltRender.Disk.Instant
import AltRender.Disk.Path
import AltRender.Text.Blank

/-!
# `Source` — what is known about a picture before it is read

A source is named by its *identity*: a path relative to the vault, or an absolute URL. It carries
the names that listings and cache entries show, and the time of its last change in milliseconds. A
remote source has no such time, which is written as the greatest 64-bit number; a cached picture of
it never goes stale.

Nothing here looks at a picture. Two sources are the same to a cache if their identities and their
base names are, and what it compares is the time alone. A URL is taken apart only to find a name to
show.
-/

set_option autoImplicit false

namespace AltRender

open AltRender.Text AltRender.Disk

/-- Identity, names and time of a picture that can be rendered. -/
structure Source where
  identity : String
  displayName : String
  baseName : String
  modified : UInt64
  deriving DecidableEq, Repr

namespace Source

/-- The time that stands for "never changes": the greatest one there is. -/
def unchanging : UInt64 := 0xFFFFFFFFFFFFFFFF

/-- Whether the source has no time of change. -/
def isRemote (s : Source) : Bool :=
  s.modified == unchanging

/-! ## Remote sources -/

/-- Whether a text names a remote source: it starts with `http://` or `https://`, in any case, after
any blanks. -/
def isRemoteLocation (location : String) : Bool :=
  let cs := lower (trimStart location.toList)
  "http://".toList.isPrefixOf cs || "https://".toList.isPrefixOf cs

/-- The last part of a URL's path, without query and fragment; `remote` if there is none. -/
def remoteName (url : List Char) : List Char :=
  let path := url.takeWhile fun c => c != '?' && c != '#'
  let path := (path.reverse.dropWhile (· == '/')).reverse
  let name := (path.reverse.takeWhile (· != '/')).reverse
  if name.isEmpty then "remote".toList else name

/-- The name before its last point, unless that would leave nothing. -/
def beforeLastPoint (name : List Char) : List Char :=
  let back := name.reverse.dropWhile (· != '.')
  match back with
  | [] => name
  | _ :: stem => if stem.isEmpty then name else stem.reverse

def remote (url : String) : Source :=
  let name := remoteName url.toList
  ⟨url, String.ofList name, String.ofList (beforeLastPoint name), unchanging⟩

/-! ## Sources in the vault -/

/-- The source at a path in the vault, as last changed at the given time. -/
def atPath (path : Path) (changed : Instant) : Source :=
  let display := path.fileName?.getD path.text
  ⟨path.text, display, path.fileStem?.getD display, changed.milliseconds?.getD 0⟩

end Source

end AltRender

import AltRender.Command.Run
import AltRender.Disk.Region

/-!
# `Command/Reach` — what a command looks at

A command looks at its settings file first. Its settings say where the cache is and what the
patterns are relative to, and so which regions of the disk matter. Of the files there only those
that are sources of a render are read.

The regions are what `Main` surveys before a command runs, and so they have to hold all that the
command can come to see: what a search goes through, the cache with the names in it, and the files
it reads. A region may well be larger than needed, and then costs only time.
-/

set_option autoImplicit false

namespace AltRender.Command

open AltRender.Disk

/-- The region that a search goes through: below its components that stand for themselves. -/
def searchRegion (s : Glob.Search) : Region :=
  let lead := s.components.takeWhile fun q => q.literal?.isSome
  let rest := s.components.drop lead.length
  let names := lead.filterMap fun q => q.literal?.map String.ofList
  ⟨Glob.joinNames s.scope names, if rest.any Glob.Pattern.isAnyPath then none else some rest.length⟩

/-- The region that a pattern leads to, unless it is a URL or no pattern. -/
def patternRegion? (root : Disk.Path) (pattern : String) : Option Region :=
  if Source.isRemoteLocation pattern then none
  else (Glob.Search.ofText (root.join ⟨pattern⟩).text).toOption.map searchRegion

/-- The region of the cache's entries. -/
def cacheRegion (s : Settings) : Region := ⟨s.absoluteCacheDirectory, some 1⟩

/-- **The regions that matter to a task** with its settings. -/
def regions (s : Settings) : Task → List Region
  | .render patterns .. => cacheRegion s :: patterns.filterMap (patternRegion? s.vaultRoot)
  | .clear _ => [cacheRegion s]
  | _ => []

/-- **The files that a task reads,** where everything in its regions is known. -/
def filesRead (s : Settings) (d : Disk) : Task → List Disk.Path
  | .render patterns .. =>
    match allSources s.vaultRoot d patterns with
    | .ok sources => (sources.filter fun x => !x.isRemote).map fun x =>
      s.vaultRoot.join ⟨x.identity⟩
    | .error _ => []
  | _ => []

end AltRender.Command

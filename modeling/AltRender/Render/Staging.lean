import AltRender.Cache.Staging
import AltRender.Render

/-!
# `Render/Staging` — renders that write their entries in a given way

A render is the same whichever way the entry is written in the end. Here the way is left open; a
render that writes at once is `Studio.render` (`renderBy_atOnce`).

What a render is asked for, what it checks and in which order, and what it answers, do not depend on
how the entry gets to the disk. So whatever is proved of `renderBy` for every writer holds of
renders whose writes fail half way, with a temporary file left behind or a directory made in vain,
as well as of those that succeed.
-/

set_option autoImplicit false

namespace AltRender.Studio

open AltRender.Disk AltRender.Cache

def storeBy (w : Writer) (studio : Studio) (path : Path) (contents : List UInt8) (now : Instant) :
    Except RenderFault Unit × Studio :=
  let (result, cache, disk) := w.write studio.cache studio.disk path contents now
  (result.mapError (RenderFault.cacheWrite path), { studio with cache := cache, disk := disk })

/-- The entry at a path made from the source. -/
def buildBy (w : Writer) (fetch : Fetch) (studio : Studio) (s : Source) (chain : Chain)
    (theme : Option Theme) (path : Path) (now : Instant) : Except RenderFault Unit × Studio :=
  match studio.load fetch s chain theme with
  | (.error fault, studio) => (.error fault, studio)
  | (.ok contents, studio) => studio.storeBy w path contents now

/-- **A source rendered as a text and a theme say,** its entry written in a given way. -/
def renderBy (w : Writer) (fetch : Fetch) (studio : Studio) (s : Source) (text : String)
    (theme : Option Theme) (now : Instant) : Except RenderFault Rendered × Studio :=
  let chain := studio.registry.chainOf text
  if chain.isEmpty then (.ok .noFilters, studio)
  else
    let path := studio.cache.entryPath s chain.signatures theme
    match studio.check s chain.signatures theme with
    | (true, studio) => (.ok (.cached path), studio)
    | (false, studio) =>
      match studio.check s chain.signatures theme with
      | (true, studio) => (.ok (.cached path), studio)
      | (false, studio) =>
        let (result, studio) := buildBy w fetch studio s chain theme path now
        (result.map fun _ => .created path, studio)

/-- A render whose path is shown, if there is one. -/
def presentBy (w : Writer) (fetch : Fetch) (studio : Studio) (s : Source) (text : String)
    (theme : Option Theme) (now : Instant) : Option Path × Studio :=
  match studio.renderBy w fetch s text theme now with
  | (.ok rendered, studio) => (rendered.path?, studio)
  | (.error _, studio) => (none, studio)

theorem storeBy_atOnce : storeBy .atOnce = store := rfl

theorem buildBy_atOnce : buildBy .atOnce = build := by
  unfold buildBy
  rw [storeBy_atOnce]
  rfl

theorem renderBy_atOnce : renderBy .atOnce = render := by
  unfold renderBy
  rw [buildBy_atOnce]
  rfl

theorem presentBy_atOnce : presentBy .atOnce = present := by
  unfold presentBy
  rw [renderBy_atOnce]
  rfl

end AltRender.Studio

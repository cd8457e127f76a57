import AltRender.Render.Staging

/-!
# `Proofs/Render/Ways` — the ways a render can go

Nothing happens between the two checks of a render, so they agree, and there are five ways it can go
(`Goes`): nothing was asked for, there is an entry, there is nothing to put into one, the entry
could not be written, it was written. Each of them says what the render gives and what the studio is
afterwards.

This is the one place where a render is taken apart. Whatever else is to be known of renders, that a
failed one leaves the cache alone, that counters add up, that an entry stays a hit, goes through the
five cases and does not look at how checks, loads and stores follow each other. A write may be made
in several ways, at once or by a temporary file that is refused something, and `Goes` is for all of
them.
-/

set_option autoImplicit false

namespace AltRender.Studio

open AltRender.Disk AltRender.Cache

/-- What an entry for a source would hold. -/
def made (codec : Codec) (fetch : Fetch) (d : Disk) (s : Source) (chain : Chain)
    (theme : Option Theme) : Except RenderFault (List UInt8) :=
  match fetch d s with
  | .error cause => .error (.source cause)
  | .ok bytes => print codec chain s theme bytes

/-- The studio after a check that found an entry. -/
def afterHit (studio : Studio) : Studio :=
  { studio with cache := { studio.cache with tally := studio.cache.tally.addCheck true } }

/-- The studio after two checks that found none, its source read. -/
def afterMiss (studio : Studio) : Studio :=
  { studio with
    cache := { studio.cache with tally := (studio.cache.tally.addCheck false).addCheck false }
    reads := studio.reads + 1 }

variable {w : Writer} {fetch : Fetch} {studio after : Studio} {s : Source} {text : String}
  {theme : Option Theme} {now : Instant} {result : Except RenderFault Rendered}

/-- **The ways a render can go.** -/
inductive Goes (w : Writer) (fetch : Fetch) (studio : Studio) (s : Source) (chain : Chain)
    (theme : Option Theme) (now : Instant) : Except RenderFault Rendered → Studio → Prop
  /-- Nothing was asked for. -/
  | idle (hempty : chain.isEmpty = true) :
      Goes w fetch studio s chain theme now (.ok .noFilters) studio
  /-- There is a current entry. -/
  | hit (hchain : chain.isEmpty = false)
      (hcurrent : studio.cache.isCurrent studio.disk s chain.signatures theme = true) :
      Goes w fetch studio s chain theme now
        (.ok (.cached (studio.cache.entryPath s chain.signatures theme)))
        studio.afterHit
  /-- There is none, and nothing that it could hold. -/
  | unmade {fault : RenderFault} (hchain : chain.isEmpty = false)
      (hcurrent : studio.cache.isCurrent studio.disk s chain.signatures theme = false)
      (hmade : made studio.codec fetch studio.disk s chain theme = .error fault) :
      Goes w fetch studio s chain theme now (.error fault) studio.afterMiss
  /-- It could not be written. -/
  | unwritten {contents : List UInt8} {fault : Fault} {c : Cache} {d : Disk}
      (hchain : chain.isEmpty = false)
      (hcurrent : studio.cache.isCurrent studio.disk s chain.signatures theme = false)
      (hmade : made studio.codec fetch studio.disk s chain theme = .ok contents)
      (hwrite : w.write studio.afterMiss.cache studio.disk
        (studio.cache.entryPath s chain.signatures theme) contents now = (.error fault, c, d)) :
      Goes w fetch studio s chain theme now
        (.error (.cacheWrite (studio.cache.entryPath s chain.signatures theme) fault))
        { studio.afterMiss with cache := c, disk := d }
  /-- It was written. -/
  | written {contents : List UInt8} {c : Cache} {d : Disk} (hchain : chain.isEmpty = false)
      (hcurrent : studio.cache.isCurrent studio.disk s chain.signatures theme = false)
      (hmade : made studio.codec fetch studio.disk s chain theme = .ok contents)
      (hwrite : w.write studio.afterMiss.cache studio.disk
        (studio.cache.entryPath s chain.signatures theme) contents now = (.ok (), c, d)) :
      Goes w fetch studio s chain theme now
        (.ok (.created (studio.cache.entryPath s chain.signatures theme)))
        { studio.afterMiss with cache := c, disk := d }

/-- Checks do not look at the tally. -/
theorem isCurrent_tally (c : Cache) (tally : Tally) :
    isCurrent { c with tally := tally } = c.isCurrent := by
  have hpath : entryPath { c with tally := tally } = c.entryPath := rfl
  funext d s signatures theme
  unfold isCurrent
  simp only [hpath]

theorem load_eq (fetch : Fetch) (studio : Studio) (s : Source) (chain : Chain)
    (theme : Option Theme) :
    studio.load fetch s chain theme =
      (made studio.codec fetch studio.disk s chain theme,
        { studio with reads := studio.reads + 1 }) := by
  unfold load made
  cases fetch studio.disk s <;> rfl

/-- **A render goes one of these ways.** -/
theorem renderBy_goes (w : Writer) (fetch : Fetch) (studio : Studio) (s : Source) (text : String)
    (theme : Option Theme) (now : Instant) :
    Goes w fetch studio s (studio.registry.chainOf text) theme now
      (studio.renderBy w fetch s text theme now).1
      (studio.renderBy w fetch s text theme now).2 := by
  unfold renderBy
  generalize studio.registry.chainOf text = chain
  cases hchain : chain.isEmpty with
  | true =>
    simp only [hchain, if_true]
    exact .idle hchain
  | false =>
    simp only [hchain, Bool.false_eq_true, if_false, check, Cache.check]
    cases hcurrent : studio.cache.isCurrent studio.disk s chain.signatures theme with
    | true => exact .hit hchain hcurrent
    | false =>
      -- The first check has changed the tally only, so the second says the same.
      simp only [isCurrent_tally, hcurrent, buildBy, load_eq]
      cases hmade : made studio.codec fetch studio.disk s chain theme with
      | error fault => exact .unmade hchain hcurrent hmade
      | ok contents =>
        simp only [storeBy]
        rcases hwrite : w.write
            { studio.cache with tally := (studio.cache.tally.addCheck false).addCheck false }
            studio.disk (studio.cache.entryPath s chain.signatures theme) contents now
          with ⟨written, c, d⟩
        cases written with
        | error fault => exact .unwritten hchain hcurrent hmade hwrite
        | ok u => exact .written hchain hcurrent hmade hwrite

end AltRender.Studio

import AltRender.Command.Run
import AltRender.Proofs.Disk.Tree

/-!
# `Proofs/Render/Steady` — sources that a cache does not touch

What is read at a path depends on what is on its way (`read_congr`). So work in the directory of a
cache makes no difference to a source if nothing on the way to the source is in that directory, or
above it and missing.

The way matters as well as the place. A source can be read through `a/../b.png`, and then `a` has to
be there, though nothing of it is read. So a directory that is made for the cache could make a
source readable that was not. That is why of every place on the way to a source that is above the
directory of the cache it is asked that something is there already (`steady_localFetch`).
-/

set_option autoImplicit false

namespace AltRender

open AltRender.Disk

namespace Disk

variable {d e : Disk} {p : Path}

/-- The places that a walk passes. -/
theorem walk_congr {pieces : List (List Char)} {l : Location} (hne : ∀ piece ∈ pieces, piece ≠ [])
    (hseen : ∀ front, front <+: pieces →
      e.seen (front.foldl onwardPiece l) = d.seen (front.foldl onwardPiece l)) :
    e.walk l pieces = d.walk l pieces := by
  induction pieces using List.reverseRecOn with
  | nil => rfl
  | append_singleton front piece ih =>
    have hbefore := ih (fun x hx => hne x (List.mem_append_left _ hx))
      fun front' hfront' => hseen front' (hfront'.trans (List.prefix_append _ _))
    rw [walk_append, walk_append, hbefore]
    cases hwalk : d.walk l front with
    | error fault => rfl
    | ok m =>
      obtain rfl := walk_ok (fun x hx => hne x (List.mem_append_left _ hx)) hwalk
      have hpiece := hne piece (List.mem_append_right _ List.mem_cons_self)
      have hhere := hseen front (List.prefix_append _ _)
      have hnext := hseen (front ++ [piece]) (List.prefix_refl _)
      rw [foldl_onwardPiece_concat] at hnext
      -- The step looks at where it is and at where it goes.
      have hstep : e.step (front.foldl onwardPiece l) piece =
        d.step (front.foldl onwardPiece l) piece := by
        unfold step
        rw [isDirectoryAt_congr hhere]
        rcases dots_or_name hpiece (front.foldl onwardPiece l) with ⟨rfl, -⟩ | ⟨rfl, -⟩ | ⟨-, hname⟩
        · simp only [if_true]
        · simp only [if_true]
        · rw [hname] at hnext
          rw [isSome_item?, isSome_item?, hnext]
      simp only [Except.bind, walk, List.foldlM_cons, hstep]
      rfl

section OnTheWay

variable (hstart : e.start = d.start) (hseen : ∀ l ∈ waypoints d.start p, e.seen l = d.seen l)
include hstart hseen

theorem find_congr : e.find p = d.find p := by
  cases hr : d.route p with
  | error fault => simp only [find, route_congr hstart, hr, bind, Except.bind]
  | ok r =>
    have hpassed : ∀ front, front <+: r.pieces →
        e.seen (front.foldl onwardPiece r.origin) = d.seen (front.foldl onwardPiece r.origin) := by
      intro front hfront
      obtain ⟨cs, hplace, hcomponents⟩ := components_of_route hr front
      have hcs := hcomponents [] (by rwa [List.append_nil])
      rw [List.filterMap_nil, List.append_nil] at hcs
      exact hseen _ (mem_waypoints.mpr ⟨cs, hcs, hplace.symm⟩)
    have hwalk := walk_congr (ne_nil_of_mem_route hr) hpassed
    cases hend : d.walk r.origin r.pieces with
    | error fault => simp only [find, route_congr hstart, hr, hwalk, hend, bind, Except.bind]
    | ok l =>
      obtain rfl := walk_ok (ne_nil_of_mem_route hr) hend
      have hthere := isDirectoryAt_congr (hpassed r.pieces (List.prefix_refl _))
      simp only [find, route_congr hstart, hr, hwalk, hend, hthere, bind, Except.bind]

/-- **What is read at a path depends on what is on its way.** -/
theorem read_congr : e.read p = d.read p := by
  unfold read look
  rw [find_congr hstart hseen]
  cases hfind : d.find p with
  | error fault => rfl
  | ok l =>
    obtain rfl := find_ok hfind
    have hthere := hseen _ (mem_waypoints.mpr ⟨p.components, List.prefix_refl _, rfl⟩)
    change e.seen (p.destination d.start) = d.seen (p.destination d.start) at hthere
    simp only [bind, Except.bind]
    rw [seen, seen] at hthere
    -- Two items that look the same have the same bytes, or are directories both.
    generalize e.item? (p.destination d.start) = found at hthere ⊢
    generalize d.item? (p.destination d.start) = found' at hthere ⊢
    cases found with
    | none =>
      cases found' with
      | none => rfl
      | some item => cases hthere
    | some item =>
      cases found' with
      | none => cases hthere
      | some item' =>
        have hbare : item.bare = item'.bare := Option.some.inj hthere
        cases item <;> cases item' <;> cases hbare <;> rfl

end OnTheWay

/-- **One disk is another on which a directory was worked in:** others may have been made above it,
and nothing elsewhere was touched. -/
structure Beside (home : Location) (d e : Disk) : Prop where
  start : e.start = d.start
  directory : ∀ l, d.isDirectoryAt l = true → e.isDirectoryAt l = true
  kept : ∀ l item, ¬ home <+: l → d.seen l = some item → e.seen l = some item
  elsewhere : ∀ l, ¬ l <+: home → ¬ home <+: l → e.seen l = d.seen l

end Disk

/-- **What is read of some sources depends on their identities,** whatever happens in a
directory. -/
def Fetch.Steady (fetch : Fetch) (home : Location) (d : Disk) (sources : List Source) : Prop :=
  ∀ s ∈ sources, ∀ s' ∈ sources, s.identity = s'.identity → ∀ e, d.Beside home e →
    fetch e s = fetch d s'

/-- **Sources are read from a vault whatever happens in a directory** that is not on their way, if
those of one identity are all remote or all local. -/
theorem steady_localFetch {root : Path} {home : Location} {d : Disk} {sources : List Source}
    (hremote : ∀ s ∈ sources, ∀ s' ∈ sources, s.identity = s'.identity → s.isRemote = s'.isRemote)
    (hout : ∀ s ∈ sources, s.isRemote = false → ∀ l ∈ waypoints d.start (root.join ⟨s.identity⟩),
      ¬ home <+: l ∧ (l <+: home → (d.seen l).isSome = true)) :
    (Command.localFetch root).Steady home d sources := by
  intro s hs s' hs' hidentity e hbeside
  unfold Command.localFetch
  rw [hremote s hs s' hs' hidentity, hidentity]
  cases hlocal : s'.isRemote with
  | true => rfl
  | false =>
    have hread : e.read (root.join ⟨s'.identity⟩) = d.read (root.join ⟨s'.identity⟩) := by
      refine read_congr hbeside.start fun l hl => ?_
      obtain ⟨hnot, hthere⟩ := hout s' hs' hlocal l hl
      by_cases habove : l <+: home
      · obtain ⟨item, hitem⟩ := Option.isSome_iff_exists.mp (hthere habove)
        rw [hitem, hbeside.kept l item hnot hitem]
      · exact hbeside.elsewhere l habove hnot
    simp only [Vault.read, hread]

end AltRender

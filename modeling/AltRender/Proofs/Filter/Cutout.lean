import AltRender.Proofs.Filter.Pixels

/-!
# `Proofs/Filter/Cutout` — several cutouts are one

A pixel that was cut out is black, and a later cutout may take it for background or not: either way
it stays nothing. So cutouts one after the other remove what any of them removes by the colour that
a pixel had to begin with, and keep all else as it was (`cutouts_union`). Neither their order nor
how often one of them is repeated plays a part.

Main fact: `cutPixelBy_cutPixel`, one cutout more.

The union is taken over a list of cuts, each with limits and a side of its own, so that the
induction adds one cut in front; order and repetition then play no part because membership has none.
-/

set_option autoImplicit false

namespace AltRender

namespace Cutout

/-- Limits, and the side of them that is cut out. -/
structure Cut where
  threshold : Threshold
  side : Side

namespace Cut

def removes (cut : Cut) (c : Rgb UInt8) : Bool :=
  Cutout.removes cut.threshold cut.side c

def effect (cut : Cut) : Effect := .transparent cut.threshold cut.side

/-- The filter that makes the cutout. -/
def filter (cut : Cut) : Filter := (Builtin.effect cut.effect).toFilter

end Cut

variable {cut : Cut} {cuts : List Cut} {q : Rgba UInt8}

/-- A pixel, or nothing if some cutout removes its colour. -/
def cutPixelBy (cuts : List Cut) (q : Rgba UInt8) : Rgba UInt8 :=
  if cuts.any fun cut => cut.removes q.colour then nothing else q

theorem cutPixel_eq (cut : Cut) (q : Rgba UInt8) :
    cutPixel cut.threshold cut.side q = if cut.removes q.colour then nothing else q := rfl

theorem cutPixelBy_nil (q : Rgba UInt8) : cutPixelBy [] q = q := rfl

/-- Nothing stays nothing, whether or not black counts as background. -/
theorem cutPixelBy_nothing (cuts : List Cut) : cutPixelBy cuts nothing = nothing :=
  ite_self nothing

/-- **A cutout before others removes what it removes in addition to them.** -/
theorem cutPixelBy_cutPixel (cut : Cut) (cuts : List Cut) (q : Rgba UInt8) :
    cutPixelBy cuts (cutPixel cut.threshold cut.side q) = cutPixelBy (cut :: cuts) q := by
  rw [cutPixel_eq, cutPixelBy.eq_def (cut :: cuts), List.any_cons]
  cases cut.removes q.colour with
  | true =>
    rw [if_pos rfl, Bool.true_or, if_pos rfl]
    exact cutPixelBy_nothing cuts
  | false =>
    rw [if_neg Bool.false_ne_true, Bool.false_or]
    rfl

theorem any_removes_congr {cuts' : List Cut} (h : ∀ cut, cut ∈ cuts ↔ cut ∈ cuts') (c : Rgb UInt8) :
    (cuts.any fun cut => cut.removes c) = cuts'.any fun cut => cut.removes c := by
  rw [Bool.eq_iff_iff, List.any_eq_true, List.any_eq_true]
  exact exists_congr fun cut => and_congr_left' (h cut)

end Cutout

namespace Effect

open Cutout

/-- Cutouts of a picture with opacity in 8 bits cut each pixel on its own. -/
theorem run_cuts (cuts : List Cut) (r : Raster (Rgba UInt8)) :
    run (cuts.map Cut.effect) (.ofRgba r) = .ok (.ofRgba (r.map (cutPixelBy cuts))) := by
  induction cuts generalizing r with
  | nil =>
    rw [List.map_nil, run_nil, show cutPixelBy [] = id from funext cutPixelBy_nil, Raster.map_id]
  | cons cut cuts ih =>
    have hfirst : cut.effect.applyTo (.ofRgba r) =
      .ok (.ofRgba (r.map (cutPixel cut.threshold cut.side))) := rfl
    have hpixel : cutPixelBy cuts ∘ cutPixel cut.threshold cut.side = cutPixelBy (cut :: cuts) :=
      funext (cutPixelBy_cutPixel cut cuts)
    rw [List.map_cons, run_cons, hfirst]
    change run (cuts.map Cut.effect) (.ofRgba (r.map (cutPixel cut.threshold cut.side))) = _
    rw [ih, Raster.map_map, hpixel]

/-- The first of some cutouts brings any picture into the form with opacity. -/
theorem run_cuts_of_ne_nil {cuts : List Cut} (hne : cuts ≠ []) (p : Picture) :
    run (cuts.map Cut.effect) p = .ok (.ofRgba (p.toRgba.map (cutPixelBy cuts))) := by
  obtain ⟨cut, rest, rfl⟩ := List.exists_cons_of_ne_nil hne
  rw [← run_cuts]
  rfl

end Effect

namespace Cutout

theorem apply_cuts {cuts : List Cut} (hne : cuts ≠ []) (p : Picture) (s : Source)
    (theme : Option Theme) :
    Chain.apply (cuts.map Cut.filter) ⟨p, s⟩ theme =
      .ok ⟨.ofRgba (p.toRgba.map (cutPixelBy cuts)), s⟩ := by
  have hchain := Builtin.chain_apply ((cuts.map Cut.effect).map Builtin.effect) ⟨p, s⟩ theme
  rw [Builtin.allSteps_effects, Effect.run_cuts_of_ne_nil hne, List.map_map, List.map_map] at hchain
  exact hchain

/-- **Cutouts form a union.** Any cutouts one after the other, at least one, make of a picture in
any mode the picture with opacity in 8 bits in which a pixel is nothing if one of them removes it by
its own colour, and as it was otherwise. So all lists of the same cutouts, in any order and with any
of them repeated, make the same picture. -/
theorem cutouts_union {cuts : List Cut} (hne : cuts ≠ []) (p : Picture) (s : Source)
    (theme : Option Theme) :
    Chain.apply (cuts.map Cut.filter) ⟨p, s⟩ theme =
        .ok ⟨.ofRgba (p.toRgba.map fun q => if cuts.any fun cut => cut.removes q.colour
          then ⟨0, 0, 0, 0⟩ else q), s⟩ ∧
      ∀ cuts' : List Cut, (∀ cut, cut ∈ cuts ↔ cut ∈ cuts') →
        Chain.apply (cuts'.map Cut.filter) ⟨p, s⟩ theme =
          Chain.apply (cuts.map Cut.filter) ⟨p, s⟩ theme := by
  refine ⟨apply_cuts hne p s theme, fun cuts' hsame => ?_⟩
  have hne' : cuts' ≠ [] := by
    obtain ⟨cut, hcut⟩ := List.exists_mem_of_ne_nil cuts hne
    exact List.ne_nil_of_mem ((hsame cut).mp hcut)
  have hpixel : cutPixelBy cuts' = cutPixelBy cuts := by
    funext q
    rw [cutPixelBy, cutPixelBy, any_removes_congr hsame]
  rw [apply_cuts hne, apply_cuts hne', hpixel]

/-- A limit that is no number removes nothing. Of a deep grey picture, black and white go and grey
stays, whichever of the other two cutouts comes first and however often. -/
theorem cutouts_union_grey :
    let p : Picture := .deep (.greyAlpha ⟨3, 1, #[⟨0, 65535⟩, ⟨32896, 257⟩, ⟨65535, 65535⟩], rfl⟩)
    let s : Source := ⟨"a.png", "a.png", "a", 0⟩
    let dark : Cut := ⟨.uniform 13.0, .below⟩
    let light : Cut := ⟨.colour ⟨240, 240, 240, 7⟩, .above⟩
    let undefined : Cut := ⟨.uniform (0.0 / 0.0), .above⟩
    [undefined, dark, light] ≠ [] ∧
      Chain.apply ([undefined, dark, light].map Cut.filter) ⟨p, s⟩ none =
        .ok ⟨.ofRgba ⟨3, 1, #[nothing, ⟨128, 128, 128, 1⟩, nothing], rfl⟩, s⟩ ∧
      Chain.apply ([light, dark, light, undefined].map Cut.filter) ⟨p, s⟩ none =
        Chain.apply ([undefined, dark, light].map Cut.filter) ⟨p, s⟩ none := by
  intro p s dark light undefined
  have hne : [undefined, dark, light] ≠ [] := List.cons_ne_nil _ _
  obtain ⟨hunion, hsame⟩ := cutouts_union hne p s none
  refine ⟨hne, ?_, hsame [light, dark, light, undefined] fun cut => ?_⟩
  · rw [hunion]
    congr 3
    exact Raster.ext rfl rfl (by decide +kernel)
  · simp only [List.mem_cons, List.not_mem_nil, or_false]
    tauto

end Cutout

end AltRender

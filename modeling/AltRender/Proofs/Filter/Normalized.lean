import AltRender.Proofs.Filter.Pixels

/-!
# `Proofs/Filter/Normalized` — pictures that were normalized first

A picture is normalized when it is decoded, and every filter brings what it is given into a form of
its own: most into the working form, a cutout straight into pixels with opacity, sharpening into
colours that opacity is merged back into. Whichever filter comes first, none of them tells a picture
of any of the eight modes from its normalized form (`applyTo_normalize`), so neither does a chain
that has a filter at all.

The modes with 16 bits are those where this is not a matter of course. A level of 16 bits is reduced
to one of 8 when the picture is brought into a form with 8 bits, and this must come to the same
whether it is done first, for all levels, or later by a filter, for the form that the filter wants.
Grey becomes three equal levels on one way as on the other.
-/

set_option autoImplicit false

namespace AltRender

namespace Picture

/-- A normalized picture has the working form of the picture. -/
@[simp] theorem toWorking_normalize (p : Picture) : p.normalize.toWorking = p.toWorking :=
  toWorking_ofWorking p.toWorking

/-- **Normalizing neither loses nor invents opacity,** and keeps every colour. -/
@[simp] theorem toRgba_normalize (p : Picture) : p.normalize.toRgba = p.toRgba := by
  rw [normalize, toRgba_ofWorking, toRgba_toWorking]

theorem mapColours_normalize (f : Rgb UInt8 → Rgb UInt8) (p : Picture) :
    p.normalize.mapColours f = p.mapColours f := by
  rw [mapColours, toWorking_normalize, mapColours]

end Picture

theorem Cutout.cutOut_normalize (threshold : Threshold) (side : Side) (p : Picture) :
    cutOut threshold side p.normalize = cutOut threshold side p := by
  rw [cutOut, Picture.toRgba_normalize, cutOut]

theorem Sharpening.sharpen_normalize (amount : Float) (p : Picture) :
    sharpen amount p.normalize = sharpen amount p := by
  rw [sharpen, Picture.toWorking_normalize, sharpen]

namespace Effect

/-- **No effect tells a picture from its normalized form.** -/
theorem applyTo_normalize (e : Effect) (p : Picture) : e.applyTo p.normalize = e.applyTo p := by
  cases e with
  | invert => exact congrArg Except.ok (Picture.mapColours_normalize _ p)
  | contrast amount => exact congrArg Except.ok (Picture.mapColours_normalize _ p)
  | boostLightness amount => exact congrArg Except.ok (Picture.mapColours_normalize _ p)
  | transparent threshold side =>
    exact congrArg Except.ok (Cutout.cutOut_normalize threshold side p)
  | sharpness amount => simp only [applyTo, Sharpening.sharpen_normalize]

theorem run_normalize {es : List Effect} (hne : es ≠ []) (p : Picture) :
    run es p.normalize = run es p := by
  cases es with
  | nil => exact absurd rfl hne
  | cons e es => rw [run_cons, run_cons, applyTo_normalize]

end Effect

namespace Builtin

theorem steps_ne_nil (b : Builtin) (theme : Option Theme) : b.steps theme ≠ [] := by
  cases b with
  | effect e => exact List.cons_ne_nil e []
  | darkmode =>
    rw [steps]
    cases theme.getD Theme.usual <;> exact List.cons_ne_nil _ _

theorem allSteps_ne_nil {bs : List Builtin} (hne : bs ≠ []) (theme : Option Theme) :
    allSteps theme bs ≠ [] := by
  cases bs with
  | nil => exact absurd rfl hne
  | cons b bs =>
    rw [allSteps, List.flatMap_cons]
    exact List.append_ne_nil_of_left_ne_nil (b.steps_ne_nil theme) _

/-- **A chain of built-in filters with at least one filter does not tell a picture from its
normalized form:** of both it makes the same frame, or has the same fault. -/
theorem chain_normalize {bs : List Builtin} (hne : bs ≠ []) (p : Picture) (s : Source)
    (theme : Option Theme) :
    Chain.apply (bs.map toFilter) ⟨p.normalize, s⟩ theme =
      Chain.apply (bs.map toFilter) ⟨p, s⟩ theme := by
  rw [chain_apply, chain_apply, Effect.run_normalize (allSteps_ne_nil hne theme)]

/-- A grey picture with opacity in samples of 16 bits is another in the working form. A cutout after
a sharpening, and a sharpening that refuses, do not mind. -/
theorem chain_normalize_deep :
    let p : Picture := .deep (.greyAlpha ⟨1, 2, #[⟨128, 65535⟩, ⟨40000, 129⟩], rfl⟩)
    let s : Source := ⟨"a.png", "a.png", "a", 0⟩
    let bs : List Builtin :=
      [.effect (.sharpness 1.0), .effect (.transparent (.uniform 13.0) .below)]
    let refusing : List Builtin := [.effect (.sharpness (0.0 / 0.0))]
    p.normalize.toRgba.pixels = #[⟨0, 0, 0, 255⟩, ⟨156, 156, 156, 1⟩] ∧
      bs ≠ [] ∧ Chain.apply (bs.map toFilter) ⟨p.normalize, s⟩ none =
        Chain.apply (bs.map toFilter) ⟨p, s⟩ none ∧
      refusing ≠ [] ∧
      Chain.apply (refusing.map toFilter) ⟨p.normalize, s⟩ none =
        Chain.apply (refusing.map toFilter) ⟨p, s⟩ none := by
  intro p s bs refusing
  have hbs : bs ≠ [] := List.cons_ne_nil _ _
  have hrefusing : refusing ≠ [] := List.cons_ne_nil _ _
  exact ⟨by decide +kernel, hbs, chain_normalize hbs p s none, hrefusing,
    chain_normalize hrefusing p s none⟩

end Builtin

end AltRender

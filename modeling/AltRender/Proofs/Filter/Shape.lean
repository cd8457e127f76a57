import AltRender.Proofs.Filter.Pixels
import AltRender.Proofs.Picture.Encoding

/-!
# `Proofs/Filter/Shape` — the shape and the opacity that a chain leaves

Pictures change between three and four samples a pixel inside a chain, and each filter handles
opacity in its own way. What comes out is still fixed by what went in: the size stays, there are as
many samples as the size asks for, and opacity is either what it was or none. It is none only where
it was before, or where a cutout removed the pixel by the colour it had by then (`Removed`). Only a
filter that refuses every picture keeps a chain from making one.

Main fact: `chain_shape`.

The rule for opacity is the only part that depends on which filters there are: a cutout gives it,
and nothing takes it away again.
-/

set_option autoImplicit false

namespace AltRender

open AltRender.Decimal

/-! ## Removed pixels -/

namespace Effect

/-- Whether an effect removes a pixel of a colour. -/
def removes : Effect → Rgb UInt8 → Bool
  | .transparent threshold side, c => Cutout.removes threshold side c
  | _, _ => false

/-- One of some effects removes the pixel at a position, by the colour it has when the turn of the
effect comes. -/
def Removed (es : List Effect) (p : Picture) (x y : Nat) : Prop :=
  ∃ front e back q c, es = front ++ e :: back ∧ run front p = .ok q ∧ q.toRgba.at? x y = some c ∧
    e.removes c.colour = true

theorem not_removed_nil (p : Picture) (x y : Nat) : ¬ Removed [] p x y := by
  rintro ⟨front, e, back, q, c, hsplit, -⟩
  exact absurd hsplit.symm (by simp)

/-- **A pixel is removed by the first effect or by one after it.** -/
theorem removed_cons {e : Effect} {es : List Effect} {p r : Picture} {x y : Nat}
    {before : Rgba UInt8} (h : e.applyTo p = .ok r) (hbefore : p.toRgba.at? x y = some before) :
    Removed (e :: es) p x y ↔ e.removes before.colour = true ∨ Removed es r x y := by
  constructor
  · rintro ⟨front, f, back, q, c, hsplit, hrun, hc, hremoves⟩
    cases front with
    | nil =>
      obtain ⟨rfl, -⟩ := List.cons.inj hsplit
      obtain rfl := Except.ok.inj hrun
      obtain rfl := Option.some.inj (hbefore.symm.trans hc)
      exact .inl hremoves
    | cons a front =>
      obtain ⟨rfl, hback⟩ := List.cons.inj hsplit
      obtain ⟨r', hfirst, hrest⟩ := run_cons_ok.mp hrun
      obtain rfl := Except.ok.inj (h.symm.trans hfirst)
      exact .inr ⟨front, f, back, q, c, hback, hrest, hc, hremoves⟩
  · rintro (hremoves | ⟨front, f, back, q, c, hsplit, hrun, hc, hremoves⟩)
    · exact ⟨[], e, es, p, before, rfl, rfl, hbefore, hremoves⟩
    · exact ⟨e :: front, f, back, q, c, by rw [hsplit, List.cons_append],
        run_cons_ok.mpr ⟨r, h, hrun⟩, hc, hremoves⟩

/-! ## Opacity -/

/-- **An effect takes the opacity of the pixels it removes** and keeps that of all others. -/
theorem alpha_onPixels (e : Effect) {r : Raster (Rgba UInt8)} {x y : Nat} {before : Rgba UInt8}
    (h : r.at? x y = some before) :
    ∃ after, (e.onPixels r).at? x y = some after ∧
      after.alpha = if e.removes before.colour then 0 else before.alpha := by
  cases e with
  | transparent threshold side =>
    refine ⟨Cutout.cutPixel threshold side before,
      by rw [onPixels, Raster.at?_map, h, Option.map_some], ?_⟩
    rw [Cutout.cutPixel, removes]
    split <;> rfl
  | sharpness amount => exact ⟨_, (Sharpening.at?_sharpenPixels _ r x y).trans (congrArg _ h), rfl⟩
  | _ => exact ⟨_, (Raster.at?_map _ r x y).trans (congrArg _ h), rfl⟩

/-- **After some effects a pixel has no opacity if one of them removed it,** and otherwise the
opacity it had. -/
theorem alpha_run {es : List Effect} {p q : Picture} {x y : Nat} {before : Rgba UInt8}
    (h : run es p = .ok q) (hbefore : p.toRgba.at? x y = some before) :
    ∃ after, q.toRgba.at? x y = some after ∧
      (Removed es p x y ∧ after.alpha = 0 ∨ ¬ Removed es p x y ∧ after.alpha = before.alpha) := by
  induction es generalizing p before with
  | nil =>
    obtain rfl := Except.ok.inj h
    exact ⟨before, hbefore, .inr ⟨not_removed_nil p x y, rfl⟩⟩
  | cons e es ih =>
    obtain ⟨r, hfirst, hrest⟩ := run_cons_ok.mp h
    obtain ⟨middle, hmiddle, hstep⟩ := e.alpha_onPixels hbefore
    rw [← toRgba_applyTo hfirst] at hmiddle
    obtain ⟨after, hafter, hlater⟩ := ih hrest hmiddle
    refine ⟨after, hafter, ?_⟩
    rw [removed_cons hfirst hbefore]
    cases hremoves : e.removes before.colour with
    | true =>
      -- Once the opacity is gone, no later effect brings it back.
      rw [hremoves, if_pos rfl] at hstep
      refine .inl ⟨.inl rfl, ?_⟩
      rcases hlater with ⟨-, hzero⟩ | ⟨-, hkept⟩
      · exact hzero
      · rw [hkept, hstep]
    | false =>
      rw [hremoves, if_neg Bool.false_ne_true] at hstep
      rw [← hstep]
      simpa using hlater

end Effect

/-! ## Shape -/

namespace Picture.Working

/-- The samples of a working form, row by row. -/
def samples : Working → List UInt8
  | .rgb r => (Bitmap.rgb r).samples
  | .rgba r => (Bitmap.rgba r).samples

theorem length_samples (w : Working) :
    w.samples.length = (ofWorking w).width * (ofWorking w).height * if (ofWorking w).hasAlpha then 4
    else 3 := by
  cases w with
  | rgb r => exact Picture.length_samples (Bitmap.rgb r)
  | rgba r => exact Picture.length_samples (Bitmap.rgba r)

end Picture.Working

namespace Builtin

theorem refuses_iff {b : Builtin} :
    b.refuses = true ↔
      ∃ amount, b = .effect (.sharpness amount) ∧ (Exact.ofFloat amount).isFinite = false := by
  rw [refuses.eq_def]
  split <;> simp_all

theorem any_isCutout_steps {b : Builtin} {theme : Option Theme} :
    (b.steps theme).any Effect.isCutout = true ↔
      b = .darkmode ∨ ∃ threshold side, b = .effect (.transparent threshold side) := by
  cases b with
  | darkmode =>
    rw [steps]
    cases theme.getD Theme.usual <;> simp [darkmodeSteps, Effect.isCutout]
  | effect e => cases e <;> simp [steps, Effect.isCutout]

/-- The frame `g` has the shape that some filters give to a picture in the working form `w` from the
source `s`. -/
structure HasShape (theme : Option Theme) (bs : List Builtin) (w : Picture.Working) (s : Source)
    (g : Frame) : Prop where
  source : g.source = s
  size : SameSize (Picture.ofWorking w) g.picture
  samples : ∃ v : Picture.Working, g.picture = Picture.ofWorking v ∧
    v.samples.length = g.picture.width * g.picture.height * if g.picture.hasAlpha then 4 else 3
  /-- There is opacity if there was, or if a filter cuts out a background. -/
  opacity : g.picture.hasAlpha = true ↔ (Picture.ofWorking w).hasAlpha = true ∨
    ∃ b ∈ bs, b = .darkmode ∨ ∃ threshold side, b = .effect (.transparent threshold side)
  /-- No pixel has any opacity but its own, and it loses that only by being removed. -/
  alpha : ∀ x y before, w.toRgba.at? x y = some before →
    ∃ after, g.picture.toRgba.at? x y = some after ∧
      (after.alpha = before.alpha ∨ after.alpha = 0) ∧
      (after.alpha = 0 ↔
        before.alpha = 0 ∨ Effect.Removed (allSteps theme bs) (Picture.ofWorking w) x y)

theorem hasShape_run {theme : Option Theme} {bs : List Builtin} {w : Picture.Working} {q : Picture}
    (h : Effect.run (allSteps theme bs) (Picture.ofWorking w) = .ok q) (s : Source) :
    HasShape theme bs w s { picture := q, source := s } where
  source := rfl
  size := Effect.sameSize_run h
  samples := by
    obtain ⟨v, rfl⟩ := Effect.exists_working_of_run h
    exact ⟨v, rfl, v.length_samples⟩
  opacity := by
    rw [Effect.hasAlpha_run h, Bool.or_eq_true, allSteps, List.any_flatMap, List.any_eq_true]
    simp only [any_isCutout_steps]
  alpha x y before hbefore := by
    rw [← Picture.toRgba_ofWorking] at hbefore
    obtain ⟨after, hafter, ⟨hremoved, hzero⟩ | ⟨hkept, halpha⟩⟩ := Effect.alpha_run h hbefore
    · exact ⟨after, hafter, .inr hzero, by simp [hremoved, hzero]⟩
    · exact ⟨after, hafter, .inl halpha, by simp [hkept, halpha]⟩

/-- **A chain of built-in filters fails exactly if one is to sharpen by an amount that is not
finite,** with the refusal of the first such filter, and otherwise makes a frame of the shape that
its filters give. -/
theorem chain_shape (bs : List Builtin) (w : Picture.Working) (s : Source) (theme : Option Theme) :
    ((∃ fault, Chain.apply (bs.map toFilter) ⟨Picture.ofWorking w, s⟩ theme = .error fault) ↔
      ∃ amount, .effect (.sharpness amount) ∈ bs ∧ (Exact.ofFloat amount).isFinite = false) ∧
    match bs.find? refuses with
    | some b => Chain.apply (bs.map toFilter) ⟨Picture.ofWorking w, s⟩ theme =
        .error (.unsupported b.signature "amount must be a finite number")
    | none =>
      ∃ g, Chain.apply (bs.map toFilter) ⟨Picture.ofWorking w, s⟩ theme = .ok g ∧
        HasShape theme bs w s g := by
  rw [chain_apply]
  -- Only the first filter that refuses is ever reached; without one every step goes through.
  cases hfind : bs.find? refuses with
  | some b =>
    rw [run_allSteps_of_find? hfind theme]
    have hrefuses : b.refuses = true := List.find?_some hfind
    obtain ⟨amount, rfl, hamount⟩ := refuses_iff.mp hrefuses
    refine ⟨⟨fun _ => ⟨amount, List.mem_of_find?_eq_some hfind, hamount⟩, fun _ => ⟨_, rfl⟩⟩, rfl⟩
  | none =>
    have hnone : ∀ b ∈ bs, b.refuses = false := by simpa using hfind
    obtain ⟨q, hq⟩ := exists_run_allSteps hnone theme (Picture.ofWorking w)
    rw [hq]
    refine ⟨⟨fun ⟨fault, hfault⟩ => absurd hfault (by simp [Except.map]), ?_⟩, _, rfl,
      hasShape_run hq s⟩
    rintro ⟨amount, hmem, hamount⟩
    have hrefuses := refuses_iff.mpr ⟨amount, rfl, hamount⟩
    exact absurd hrefuses (by simp [hnone _ hmem])

end Builtin

end AltRender

import AltRender.Proofs.Filter.Picture

/-!
# `Proofs/Filter/Pixels` — what effects do to pixels

Filters bring a picture into one of their working forms each in its own way, and keep or add opacity
as they go. Seen through its pixels with opacity (`Picture.toRgba`) a picture shows none of that:
every effect does one thing to the pixels of any picture (`toRgba_applyTo`), and apart from the
pixels only whether the picture has opacity counts (`hasAlpha_applyTo`). A chain of built-in filters
is its effects one after the other (`chain_apply`), so what it does to a picture is read off the
pixels step by step (`toRgba_run`).

The filters that look at one pixel, at a pixel and its neighbours, or at the theme all come down to
`onPixels`, so the modules on locality, shape and cutouts need not go through the six filters again.
-/

set_option autoImplicit false

namespace AltRender

open AltRender.Decimal

/-! ## Rasters by position -/

namespace Raster

variable {P Q : Type}

theorem at?_eq_none {r : Raster P} {x y : Nat} (h : ¬ (x < r.width ∧ y < r.height)) :
    r.at? x y = none :=
  if_neg h

theorem exists_at? (r : Raster P) {x y : Nat} (hx : x < r.width) (hy : y < r.height) :
    ∃ p, r.at? x y = some p := by
  rw [at?, if_pos ⟨hx, hy⟩]
  exact ⟨_, Array.getElem?_eq_getElem (r.index_lt hx hy)⟩

/-- The index of a pixel says where it is. -/
theorem position_of_index {x y width : Nat} (hx : x < width) :
    (y * width + x) % width = x ∧ (y * width + x) / width = y := by
  refine ⟨?_, ?_⟩
  · rw [Nat.mul_comm, Nat.mul_add_mod, Nat.mod_eq_of_lt hx]
  · rw [Nat.mul_comm, Nat.mul_add_div (by omega), Nat.div_eq_of_lt hx, Nat.add_zero]

/-- **Rasters of one size with the same pixel at each position are the same.** -/
theorem ext_at? {r s : Raster P} (hw : r.width = s.width) (hh : r.height = s.height)
    (h : ∀ x y, r.at? x y = s.at? x y) : r = s := by
  refine Raster.ext hw hh (Array.ext (by rw [r.size_pixels, s.size_pixels, hw, hh]) fun i hr hs =>
    ?_)
  -- The pixel with index `i` is the one in column `i % width` of row `i / width`.
  have hpos : 0 < r.width := by
    rcases Nat.eq_zero_or_pos r.width with hzero | hpos
    · rw [r.size_pixels, hzero, Nat.zero_mul] at hr
      exact absurd hr (Nat.not_lt_zero i)
    · exact hpos
  have hx : i % r.width < r.width := Nat.mod_lt i hpos
  have hy : i / r.width < r.height := by
    rw [Nat.div_lt_iff_lt_mul hpos, Nat.mul_comm, ← r.size_pixels]
    exact hr
  have hi : i / r.width * r.width + i % r.width = i := Nat.div_add_mod' i r.width
  have hat := h (i % r.width) (i / r.width)
  rw [at?, at?, if_pos ⟨hx, hy⟩, if_pos ⟨hw ▸ hx, hh ▸ hy⟩, ← hw, hi] at hat
  rw [Array.getElem?_eq_getElem hr, Array.getElem?_eq_getElem hs] at hat
  exact Option.some.inj hat

theorem at?_zipWith (f : P → Q → P) {r : Raster P} {s : Raster Q} (hw : s.width = r.width)
    (hh : s.height = r.height) (x y : Nat) :
    (r.zipWith f s).at? x y = (r.at? x y).bind fun p => (s.at? x y).map (f p) := by
  rw [zipWith, at?_mapIdx]
  by_cases h : x < r.width ∧ y < r.height
  · obtain ⟨p, hp⟩ := r.exists_at? h.1 h.2
    obtain ⟨q, hq⟩ := s.exists_at? (hw ▸ h.1) (hh ▸ h.2)
    have hq' := hq
    rw [at?, if_pos ⟨hw ▸ h.1, hh ▸ h.2⟩, hw] at hq'
    rw [hp, hq, Option.map_some, hq']
    rfl
  · rw [at?_eq_none h]
    rfl

end Raster

/-! ## Sharpening by position -/

namespace Sharpening

variable {P Q : Type}

/-- Sharpening the colours of pixels that have opacity. -/
def sharpenPixels (weights : List Float32) (r : Raster (Rgba UInt8)) : Raster (Rgba UInt8) :=
  r.zipWith Rgba.withColour (sharpenColours weights (r.map Rgba.colour))

/-- **An inner pixel takes the sharpened colour,** an outer one stays. -/
theorem at?_sharpenColours (weights : List Float32) (r : Raster (Rgb UInt8)) (x y : Nat) :
    (sharpenColours weights r).at? x y =
      (r.at? x y).map fun c => if isInner r x y then sharpColour weights r x y else c := by
  rw [sharpenColours, Raster.at?_mapIdx]
  by_cases h : x < r.width ∧ y < r.height
  · obtain ⟨hcolumn, hrow⟩ := Raster.position_of_index (y := y) h.1
    simp only [hcolumn, hrow]
  · rw [Raster.at?_eq_none h]
    rfl

theorem at?_sharpenPixels (weights : List Float32) (r : Raster (Rgba UInt8)) (x y : Nat) :
    (sharpenPixels weights r).at? x y = (r.at? x y).map fun q =>
      q.withColour (if isInner r x y then sharpColour weights (r.map Rgba.colour) x y
        else q.colour) := by
  rw [sharpenPixels,
    Raster.at?_zipWith _ (r := r) (s := sharpenColours weights (r.map Rgba.colour)) rfl rfl,
    at?_sharpenColours, Raster.at?_map]
  cases r.at? x y <;> rfl

end Sharpening

/-! ## Effects on pixels -/

namespace Effect

/-- What an effect does to pixels that have opacity, whether or not it can be had for its amount. -/
def onPixels : Effect → Raster (Rgba UInt8) → Raster (Rgba UInt8)
  | .invert => Raster.map fun q => q.withColour (Tone.onChannels Tone.complement q.colour)
  | .contrast amount => Raster.map fun q =>
    q.withColour (Tone.onChannels (Tone.bend amount) q.colour)
  | .boostLightness amount => Raster.map fun q => q.withColour (Lightness.scale amount q.colour)
  | .transparent threshold side => Raster.map (Cutout.cutPixel threshold side)
  | .sharpness amount => Sharpening.sharpenPixels (Sharpening.kernel amount)

/-- Whether an effect gives a picture opacity. -/
def isCutout : Effect → Bool
  | .transparent .. => true
  | _ => false

end Effect

namespace Picture

/-- The pixels of a working form. -/
def Working.toRgba : Working → Raster (Rgba UInt8)
  | .rgb r => r.map Rgb.solid
  | .rgba r => r

theorem toRgba_ofWorking (w : Working) : (ofWorking w).toRgba = w.toRgba := by
  cases w <;> rfl

/-- **Bringing a picture into its working form keeps its pixels.** -/
theorem toRgba_toWorking (p : Picture) : p.toWorking.toRgba = p.toRgba := by
  rw [toWorking, toRgba]
  cases p.toShallow with
  | grey r => exact Raster.map_map _ _ r
  | _ => rfl

theorem hasAlpha_toShallow (p : Picture) : p.toShallow.hasAlpha = p.hasAlpha := by
  cases p with
  | shallow b => rfl
  | deep b => cases b <;> rfl

theorem hasAlpha_toWorking (p : Picture) : (ofWorking p.toWorking).hasAlpha = p.hasAlpha := by
  rw [← hasAlpha_toShallow p, toWorking]
  cases p.toShallow <;> rfl

theorem toRgba_mapColours (f : Rgb UInt8 → Rgb UInt8) (p : Picture) :
    (p.mapColours f).toRgba = p.toRgba.map fun q => q.withColour (f q.colour) := by
  rw [← toRgba_toWorking p, mapColours]
  cases p.toWorking with
  | rgb r =>
    change (r.map f).map Rgb.solid = (r.map Rgb.solid).map _
    rw [Raster.map_map, Raster.map_map]
    rfl
  | rgba r => rfl

theorem hasAlpha_mapColours (f : Rgb UInt8 → Rgb UInt8) (p : Picture) :
    (p.mapColours f).hasAlpha = p.hasAlpha := by
  rw [← hasAlpha_toWorking p, mapColours]
  cases p.toWorking <;> rfl

theorem toRgba_sharpen (amount : Float) (p : Picture) :
    (Sharpening.sharpen amount p).toRgba =
      Sharpening.sharpenPixels (Sharpening.kernel amount) p.toRgba := by
  rw [← toRgba_toWorking p, Sharpening.sharpen]
  cases p.toWorking with
  | rgba r => rfl
  | rgb r =>
    have hcolours : (r.map Rgb.solid).map Rgba.colour = r := (Raster.map_map _ _ r).trans r.map_id
    refine Raster.ext_at? rfl rfl fun x y => ?_
    change ((Sharpening.sharpenColours _ r).map Rgb.solid).at? x y = _
    rw [Raster.at?_map, Sharpening.at?_sharpenColours, Working.toRgba, Sharpening.at?_sharpenPixels,
      Raster.at?_map, hcolours]
    cases r.at? x y with
    | none => rfl
    | some c => rfl

theorem hasAlpha_sharpen (amount : Float) (p : Picture) :
    (Sharpening.sharpen amount p).hasAlpha = p.hasAlpha := by
  rw [← hasAlpha_toWorking p, Sharpening.sharpen]
  cases p.toWorking <;> rfl

end Picture

namespace Effect

/-- **Every effect does one thing to the pixels of any picture.** -/
theorem toRgba_applyTo {e : Effect} {p q : Picture} (h : e.applyTo p = .ok q) :
    q.toRgba = e.onPixels p.toRgba := by
  cases e with
  | invert => exact Except.ok.inj h ▸ Picture.toRgba_mapColours _ p
  | contrast amount => exact Except.ok.inj h ▸ Picture.toRgba_mapColours _ p
  | boostLightness amount => exact Except.ok.inj h ▸ Picture.toRgba_mapColours _ p
  | transparent threshold side => exact Except.ok.inj h ▸ rfl
  | sharpness amount => exact eq_sharpen_of_applyTo h ▸ Picture.toRgba_sharpen amount p

/-- **A picture gets opacity from a cutout and keeps what it has.** -/
theorem hasAlpha_applyTo {e : Effect} {p q : Picture} (h : e.applyTo p = .ok q) :
    q.hasAlpha = (p.hasAlpha || e.isCutout) := by
  cases e with
  | invert => exact Except.ok.inj h ▸ by simp [isCutout, Tone.invert, Picture.hasAlpha_mapColours]
  | contrast amount =>
    exact Except.ok.inj h ▸ by simp [isCutout, Tone.contrast, Picture.hasAlpha_mapColours]
  | boostLightness amount =>
    exact Except.ok.inj h ▸ by simp [isCutout, Lightness.boost, Picture.hasAlpha_mapColours]
  | transparent threshold side =>
    obtain rfl := Except.ok.inj h
    rw [isCutout, Bool.or_true]
    rfl
  | sharpness amount => exact eq_sharpen_of_applyTo h ▸ by simp [isCutout, Picture.hasAlpha_sharpen]

/-! ## Effects one after the other -/

/-- A picture after some effects, or the fault of the first that has one. -/
def run (es : List Effect) (p : Picture) : Except FilterFault Picture :=
  es.foldlM (fun q e => e.applyTo q) p

@[simp] theorem run_nil (p : Picture) : run [] p = .ok p := rfl

theorem run_cons (e : Effect) (es : List Effect) (p : Picture) :
    run (e :: es) p = (e.applyTo p).bind (run es) :=
  rfl

theorem run_append (es es' : List Effect) (p : Picture) :
    run (es ++ es') p = (run es p).bind (run es') :=
  List.foldlM_append

theorem run_cons_ok {e : Effect} {es : List Effect} {p q : Picture} :
    run (e :: es) p = .ok q ↔ ∃ r, e.applyTo p = .ok r ∧ run es r = .ok q := by
  rw [run_cons]
  cases e.applyTo p with
  | error fault => simp [Except.bind]
  | ok r => simp [Except.bind]

theorem make_changes (es : List Effect) (theme : Option Theme) :
    (changes es).make theme = run es := by
  induction es with
  | nil => rfl
  | cons e es ih =>
    funext p
    change (e.applyTo p).bind ((changes es).make theme) = _
    rw [ih, run_cons]

theorem sameSize_run {es : List Effect} {p q : Picture} (h : run es p = .ok q) : SameSize p q := by
  rw [← make_changes es none] at h
  exact (changes es).sameSize h

/-- **The pixels after some effects are those that each makes of the ones before.** -/
theorem toRgba_run {es : List Effect} {p q : Picture} (h : run es p = .ok q) :
    q.toRgba = es.foldl (fun r e => e.onPixels r) p.toRgba := by
  induction es generalizing p with
  | nil => exact Except.ok.inj h ▸ rfl
  | cons e es ih =>
    obtain ⟨r, hfirst, hrest⟩ := run_cons_ok.mp h
    rw [List.foldl_cons, ← toRgba_applyTo hfirst, ih hrest]

theorem hasAlpha_run {es : List Effect} {p q : Picture} (h : run es p = .ok q) :
    q.hasAlpha = (p.hasAlpha || es.any isCutout) := by
  induction es generalizing p with
  | nil => exact Except.ok.inj h ▸ by simp
  | cons e es ih =>
    obtain ⟨r, hfirst, hrest⟩ := run_cons_ok.mp h
    rw [ih hrest, hasAlpha_applyTo hfirst, List.any_cons, Bool.or_assoc]

theorem exists_working_of_run {es : List Effect} {w : Picture.Working} {q : Picture}
    (h : run es (Picture.ofWorking w) = .ok q) : ∃ v, q = Picture.ofWorking v := by
  rw [← make_changes es none] at h
  exact (changes es).working h

end Effect

/-! ## The effects of a chain -/

namespace Builtin

/-- The effects that a filter runs under a theme, in order. -/
def steps (theme : Option Theme) : Builtin → List Effect
  | .effect e => [e]
  | .darkmode => darkmodeSteps (theme.getD Theme.usual)

/-- The effects of some filters one after the other. -/
def allSteps (theme : Option Theme) (bs : List Builtin) : List Effect :=
  bs.flatMap (steps theme)

theorem allSteps_append (theme : Option Theme) (bs bs' : List Builtin) :
    allSteps theme (bs ++ bs') = allSteps theme bs ++ allSteps theme bs' :=
  List.flatMap_append

theorem allSteps_effects (theme : Option Theme) (es : List Effect) :
    allSteps theme (es.map effect) = es := by
  induction es with
  | nil => rfl
  | cons e es ih => exact congrArg (e :: ·) ih

theorem apply_eq_run (b : Builtin) (f : Frame) (theme : Option Theme) :
    b.apply f theme = (Effect.run (b.steps theme) f.picture).map fun p =>
      { f with picture := p } := by
  have heffects := Effect.changes_describes (b.steps theme) f theme
  rw [Effect.make_changes] at heffects
  rw [← heffects]
  cases b with
  | effect e => exact (bind_pure (e.apply f)).symm
  | darkmode => rfl

/-- **A chain of built-in filters is its effects one after the other,** with the source left as it
is. -/
theorem chain_apply (bs : List Builtin) (f : Frame) (theme : Option Theme) :
    Chain.apply (bs.map toFilter) f theme =
      (Effect.run (allSteps theme bs) f.picture).map fun p => { f with picture := p } := by
  induction bs generalizing f with
  | nil => rfl
  | cons b bs ih =>
    rw [List.map_cons, Chain.apply_cons, allSteps, List.flatMap_cons, Effect.run_append]
    change (b.apply f theme).bind _ = _
    rw [apply_eq_run]
    cases Effect.run (b.steps theme) f.picture with
    | error fault => rfl
    | ok p => exact ih { f with picture := p }

/-! ## Refusals -/

/-- Whether a filter refuses every picture: it is to sharpen by an amount that is not finite. -/
def refuses : Builtin → Bool
  | .effect (.sharpness amount) => !(Exact.ofFloat amount).isFinite
  | _ => false

/-- The fault of a filter that refuses. -/
def refusal (b : Builtin) : FilterFault :=
  .unsupported b.signature "amount must be a finite number"

theorem run_steps_of_refuses {b : Builtin} (h : b.refuses = true) (theme : Option Theme)
    (p : Picture) : Effect.run (b.steps theme) p = .error b.refusal := by
  cases b with
  | darkmode => exact Bool.noConfusion h
  | effect e =>
    cases e with
    | sharpness amount =>
      rw [refuses, Bool.not_eq_true'] at h
      rw [steps, Effect.run_cons, Effect.applyTo, h]
      rfl
    | _ => exact Bool.noConfusion h

theorem exists_run_steps {b : Builtin} (h : b.refuses = false) (theme : Option Theme)
    (p : Picture) :
    ∃ q, Effect.run (b.steps theme) p = .ok q := by
  cases b with
  | darkmode =>
    rw [steps]
    cases theme.getD Theme.usual <;> exact ⟨_, rfl⟩
  | effect e =>
    cases e with
    | sharpness amount =>
      rw [refuses, Bool.not_eq_false'] at h
      rw [steps, Effect.run_cons, Effect.applyTo, h]
      exact ⟨_, rfl⟩
    | _ => exact ⟨_, rfl⟩

/-- **A chain fails with the refusal of the first filter that refuses.** -/
theorem run_allSteps_of_find? {bs : List Builtin} {b : Builtin} (h : bs.find? refuses = some b)
    (theme : Option Theme) (p : Picture) : Effect.run (allSteps theme bs) p = .error b.refusal := by
  induction bs generalizing p with
  | nil => exact absurd h (by simp)
  | cons a bs ih =>
    rw [allSteps, List.flatMap_cons, Effect.run_append]
    cases ha : a.refuses with
    | true =>
      rw [List.find?_cons_of_pos ha] at h
      obtain rfl := Option.some.inj h
      rw [run_steps_of_refuses ha]
      rfl
    | false =>
      rw [List.find?_cons_of_neg (by simp [ha])] at h
      obtain ⟨q, hq⟩ := exists_run_steps ha theme p
      rw [hq]
      exact ih h q

/-- **Without such a filter it makes a picture.** -/
theorem exists_run_allSteps {bs : List Builtin} (h : ∀ b ∈ bs, b.refuses = false)
    (theme : Option Theme) (p : Picture) : ∃ q, Effect.run (allSteps theme bs) p = .ok q := by
  induction bs generalizing p with
  | nil => exact ⟨p, rfl⟩
  | cons b bs ih =>
    obtain ⟨hb, hbs⟩ := List.forall_mem_cons.mp h
    obtain ⟨q, hq⟩ := exists_run_steps hb theme p
    rw [allSteps, List.flatMap_cons, Effect.run_append, hq]
    exact ih hbs q

end Builtin

end AltRender

import AltRender.Proofs.Filter.Normalized

/-!
# `Proofs/Filter/Inversion` — two inversions cancel

To invert a picture twice is to bring it into its working form and no more: the colours are
complemented twice, and opacity is not touched (`invert_invert`). Between the filters of a chain a
picture is in a working form already, so there two inversions do nothing at all; and in front of a
chain the next filter would have brought the picture into that form itself. So two inversions may be
left out of any place of a chain (`chain_invert_invert`), if the picture is normalized in their
stead.

Both facts are about runs of effects first, with any effects before and behind the two inversions,
and come to chains by way of `chain_apply`. Whether a chain fails is untouched as well, since an
inversion never does.
-/

set_option autoImplicit false

namespace AltRender

/-! ## Pictures -/

theorem Tone.onChannels_complement_complement (c : Rgb UInt8) :
    onChannels complement (onChannels complement c) = c := by
  simp only [onChannels, complement_complement]

namespace Picture

/-- **Colours changed twice are changed once,** by both changes. -/
theorem mapColours_mapColours (f g : Rgb UInt8 → Rgb UInt8) (p : Picture) :
    (p.mapColours f).mapColours g = p.mapColours (g ∘ f) := by
  simp only [mapColours]
  cases p.toWorking with
  | rgb r => exact congrArg ofRgb (Raster.map_map f g r)
  | rgba r => exact congrArg ofRgba (Raster.map_map _ _ r)

/-- Colours that stay as they are leave the normalized picture. -/
theorem mapColours_id (p : Picture) : p.mapColours id = p.normalize := by
  simp only [mapColours, normalize]
  cases p.toWorking with
  | rgb r => exact congrArg ofRgb r.map_id
  | rgba r => exact congrArg ofRgba r.map_id

@[simp] theorem normalize_ofWorking (w : Working) : (ofWorking w).normalize = ofWorking w := by
  rw [normalize, toWorking_ofWorking]

end Picture

/-- **A picture inverted twice is the normalized picture.** -/
theorem Tone.invert_invert (p : Picture) : invert (invert p) = p.normalize := by
  have hid : onChannels complement ∘ onChannels complement = id :=
    funext onChannels_complement_complement
  rw [invert, invert, Picture.mapColours_mapColours, hid, Picture.mapColours_id]

/-! ## Chains -/

namespace Effect

/-- What effects make of a picture in a working form, two inversions leave as it is. -/
theorem run_invert_invert {es : List Effect} {w : Picture.Working} {q : Picture}
    (h : run es (Picture.ofWorking w) = .ok q) : run [invert, invert] q = .ok q := by
  obtain ⟨v, rfl⟩ := exists_working_of_run h
  have htwice : run [invert, invert] (Picture.ofWorking v) =
    .ok (Tone.invert (Tone.invert (Picture.ofWorking v))) := rfl
  rw [htwice, Tone.invert_invert, Picture.normalize_ofWorking]

/-- **Two inversions among effects leave no trace** but that the picture is normalized. -/
theorem run_append_invert_invert (es es' : List Effect) (p : Picture) :
    run (es ++ [invert, invert] ++ es') p = run (es ++ es') p.normalize := by
  have hne : es ++ [invert, invert] ++ es' ≠ [] := by simp
  rw [← run_normalize hne, run_append, run_append, run_append, Picture.normalize]
  cases hfirst : run es (Picture.ofWorking p.toWorking) with
  | error fault => rfl
  | ok q =>
    have htwice : (Except.ok q).bind (run [invert, invert]) = .ok q := run_invert_invert hfirst
    rw [htwice]

end Effect

namespace Builtin

theorem apply_append_invert_invert (bs bs' : List Builtin) (p : Picture) (s : Source)
    (theme : Option Theme) :
    Chain.apply ((bs ++ [effect .invert, effect .invert] ++ bs').map toFilter) ⟨p, s⟩ theme =
      Chain.apply ((bs ++ bs').map toFilter) ⟨p.normalize, s⟩ theme := by
  rw [chain_apply, chain_apply, allSteps_append, allSteps_append, allSteps_append]
  exact congrArg _ (Effect.run_append_invert_invert _ _ p)

/-- **Two inversions next to each other cancel anywhere in a chain.** Of every picture a chain with
them makes the frame that the chain without them makes of the normalized picture, or has the same
fault. In particular two inversions alone make the normalized picture, with the colours and the
opacity that the picture had. -/
theorem chain_invert_invert (bs bs' : List Builtin) (p : Picture) (s : Source)
    (theme : Option Theme) :
    Chain.apply ((bs ++ [effect .invert, effect .invert] ++ bs').map toFilter) ⟨p, s⟩ theme =
        Chain.apply ((bs ++ bs').map toFilter) ⟨p.normalize, s⟩ theme ∧
      Chain.apply [(effect .invert).toFilter, (effect .invert).toFilter] ⟨p, s⟩ theme =
        .ok ⟨p.normalize, s⟩ ∧
      p.normalize.hasAlpha = p.hasAlpha ∧ p.normalize.toRgba = p.toRgba :=
  ⟨apply_append_invert_invert bs bs' p s theme, apply_append_invert_invert [] [] p s theme,
    Picture.hasAlpha_toWorking p,
    Picture.toRgba_normalize p⟩

end Builtin

end AltRender

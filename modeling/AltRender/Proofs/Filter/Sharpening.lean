import AltRender.Proofs.Filter.Pixels

/-!
# `Proofs/Filter/Sharpening` — sharpening, pixel by pixel

To sharpen a picture the colours are taken apart from the opacity, weighed as a whole, and put back
together with it. Seen by position it is a formula: an inner pixel gets, in each channel, the level
of a sum of nine products, and keeps its opacity; a pixel of the border stays (`sharpness_apply`).
The nine samples are those of the picture before any of it was changed.

`Square` holds what belongs to the nine places of a neighbourhood, by column and row.

The sum is kept in the order in which it is made, as single precision is not associative. What the
formula reads is found by `Around`, which only holds where all nine places are in the picture.
-/

set_option autoImplicit false

namespace AltRender

open AltRender.Decimal

namespace Picture

/-- **A working form is known by its pixels** and by whether it has opacity. -/
theorem working_eq_of_toRgba {w v : Working}
    (halpha : (ofWorking w).hasAlpha = (ofWorking v).hasAlpha) (hpixels : w.toRgba = v.toRgba) :
    w = v := by
  cases w with
  | rgb r => cases v with
    | rgb r' =>
      have hcolours := congrArg (Raster.map Rgba.colour) hpixels
      rw [Working.toRgba, Working.toRgba, Raster.map_map, Raster.map_map] at hcolours
      have hsolid : Rgba.colour ∘ Rgb.solid = id := rfl
      rw [hsolid, Raster.map_id, Raster.map_id] at hcolours
      rw [hcolours]
    | rgba r' => exact absurd halpha Bool.false_ne_true
  | rgba r => cases v with
    | rgb r' => exact absurd halpha.symm Bool.false_ne_true
    | rgba r' => exact congrArg Working.rgba hpixels

end Picture

namespace Sharpening

/-! ## The nine places of a neighbourhood -/

/-- Something for each place of three columns and three rows. -/
abbrev Square (α : Type) := Fin 3 → Fin 3 → α

namespace Square

variable {α β : Type}

/-- Row by row, from the left in each row. -/
def rows (square : Square α) : List α :=
  (List.finRange 3).flatMap fun row => (List.finRange 3).map fun column => square column row

theorem map_rows (f : α → β) (square : Square α) :
    square.rows.map f = rows fun column row => f (square column row) :=
  rfl

theorem filterMap_rows {f : α → Option β} {square : Square α} {found : Square β}
    (h : ∀ column row, f (square column row) = some (found column row)) :
    square.rows.filterMap f = found.rows := by
  -- Something is found at every place, so no place is dropped.
  have hmap : square.rows.map f = found.rows.map some := by
    rw [map_rows, map_rows]
    simp only [h]
  have hfound := congrArg (List.filterMap id) hmap
  rwa [List.filterMap_map, List.filterMap_map, Function.id_comp, Function.id_comp,
    List.filterMap_some] at hfound

/-- The sum of the products of weights and samples, row by row. -/
def weigh (weights : Square Float32) (samples : Square UInt8) : Float32 :=
  (List.finRange 3).foldl (fun sum row =>
    (List.finRange 3).foldl (fun sum column =>
      sum + (samples column row).toFloat32 * weights column row) sum) 0.0

theorem weightedSum_rows (weights : Square Float32) (samples : Square UInt8) :
    weightedSum weights.rows samples.rows = weigh weights samples := rfl

end Square

/-- The weight of the pixel itself in the middle, and that of a neighbour everywhere else. -/
def weight (amount : Float) : Square Float32 :=
  fun column row => if column = 1 ∧ row = 1 then 1.0 + 8.0 * narrow amount else -narrow amount

theorem rows_weight (amount : Float) : (weight amount).rows = kernel amount := rfl

/-- The pixel at each place around a position, with the position itself in the middle. -/
def Around {P : Type} (r : Raster P) (x y : Nat) (square : Square P) : Prop :=
  ∀ column row : Fin 3, r.at? (x + column - 1) (y + row - 1) = some (square column row)

variable {P Q : Type} {x y : Nat}

theorem isInner_iff {r : Raster P} :
    isInner r x y = true ↔ 0 < x ∧ 0 < y ∧ x + 1 < r.width ∧ y + 1 < r.height := by
  simp [isInner, and_assoc]

theorem exists_around {r : Raster P} (h : isInner r x y = true) :
    ∃ square, Around r x y square := by
  obtain ⟨hleft, htop, hright, hbottom⟩ := isInner_iff.mp h
  have hplace : ∀ column row : Fin 3, ∃ p, r.at? (x + column - 1) (y + row - 1) = some p :=
    fun column row =>
    r.exists_at? (by omega) (by omega)
  choose square hsquare using hplace
  exact ⟨square, hsquare⟩

theorem Around.map {r : Raster P} {square : Square P} (h : Around r x y square) (f : P → Q) :
    Around (r.map f) x y fun column row => f (square column row) := by
  intro column row
  rw [Raster.at?_map, h column row, Option.map_some]

theorem Around.neighbourhood {r : Raster P} {square : Square P} (h : Around r x y square) :
    neighbourhood r x y = square.rows := by
  have hplaces : Sharpening.neighbourhood r x y =
      (Square.rows fun column row => (x + column - 1, y + row - 1)).filterMap fun place =>
        r.at? place.1 place.2 := rfl
  exact hplaces.trans (Square.filterMap_rows fun column row => h column row)

/-- The level of the weighted sum in each channel. -/
def weighColours (amount : Float) (square : Square (Rgb UInt8)) : Rgb UInt8 :=
  ⟨level ((weight amount).weigh fun column row => (square column row).red),
    level ((weight amount).weigh fun column row => (square column row).green),
    level ((weight amount).weigh fun column row => (square column row).blue)⟩

/-- **The sharpened colour is a weighted sum in each channel.** -/
theorem Around.sharpColour {r : Raster (Rgb UInt8)} {square : Square (Rgb UInt8)}
    (h : Around r x y square) (amount : Float) :
    sharpColour (kernel amount) r x y = weighColours amount square := by
  rw [Sharpening.sharpColour, h.neighbourhood, ← rows_weight]
  simp only [Square.map_rows, Square.weightedSum_rows, weighColours]

/-! ## Sharpened pixels -/

/-- The pixel in the middle with the weighed colours and the opacity that it had. -/
def sharpPixel (amount : Float) (square : Square (Rgba UInt8)) : Rgba UInt8 :=
  (square 1 1).withColour (weighColours amount fun column row => (square column row).colour)

theorem Around.at?_sharpenPixels {r : Raster (Rgba UInt8)} {square : Square (Rgba UInt8)}
    (h : Around r x y square) (hinner : isInner r x y = true) (amount : Float) :
    (sharpenPixels (kernel amount) r).at? x y = some (sharpPixel amount square) := by
  have hcentre : r.at? x y = some (square 1 1) := h 1 1
  rw [Sharpening.at?_sharpenPixels, hcentre, Option.map_some, if_pos hinner,
    (h.map Rgba.colour).sharpColour]
  rfl

theorem at?_sharpenPixels_of_not_inner {r : Raster (Rgba UInt8)} (h : isInner r x y = false)
    (weights : List Float32) : (sharpenPixels weights r).at? x y = r.at? x y := by
  rw [at?_sharpenPixels, h]
  simp

/-- A raster without inner pixels stays. -/
theorem sharpenPixels_of_narrow {r : Raster (Rgba UInt8)} (h : r.width < 3 ∨ r.height < 3)
    (weights : List Float32) : sharpenPixels weights r = r := by
  refine Raster.ext_at? rfl rfl fun x y => at?_sharpenPixels_of_not_inner ?_ weights
  -- An inner position has one before it and one behind it in its row and in its column.
  rw [Bool.eq_false_iff, Ne, isInner_iff]
  omega

/-! ## Sharpened pictures -/

theorem normalize_sharpen (amount : Float) (p : Picture) :
    (sharpen amount p).normalize = sharpen amount p := by
  rw [sharpen]
  cases p.toWorking <;> rfl

theorem sharpen_of_narrow {p : Picture} (h : p.width < 3 ∨ p.height < 3) (amount : Float) :
    sharpen amount p = p.normalize := by
  rw [← (size_toRgba p).1, ← (size_toRgba p).2] at h
  rw [← normalize_sharpen, Picture.normalize, Picture.normalize]
  refine congrArg Picture.ofWorking (Picture.working_eq_of_toRgba ?_ ?_)
  · rw [Picture.hasAlpha_toWorking, Picture.hasAlpha_toWorking, Picture.hasAlpha_sharpen]
  · rw [Picture.toRgba_toWorking, Picture.toRgba_toWorking, Picture.toRgba_sharpen,
      sharpenPixels_of_narrow h]

/-- **Sharpening with a finite amount succeeds, and makes of every picture what the formula says of
its pixels.** The sharpened picture is in a working form, of the size that the picture had, and with
opacity if that had it. Its border is as it was. Each inner pixel gets, in every channel, the level
of the nine samples around it weighed row by row, and keeps its opacity. A picture without inner
pixels comes back normalized. -/
theorem sharpness_apply {amount : Float} (hfinite : (Exact.ofFloat amount).isFinite = true)
    (p : Picture) (s : Source) (theme : Option Theme) :
    ∃ q, (Builtin.effect (.sharpness amount)).apply ⟨p, s⟩ theme = .ok ⟨q, s⟩ ∧
      q.normalize = q ∧ SameSize p q ∧ q.hasAlpha = p.hasAlpha ∧
      (∀ x y, x = 0 ∨ y = 0 ∨ x + 1 = p.width ∨ y + 1 = p.height →
        q.toRgba.at? x y = p.toRgba.at? x y) ∧
      (∀ x y, 0 < x ∧ 0 < y ∧ x + 1 < p.width ∧ y + 1 < p.height →
        ∃ square, Around p.toRgba x y square ∧ q.toRgba.at? x y = some (sharpPixel amount square)) ∧
      (p.width < 3 ∨ p.height < 3 → q = p.normalize) := by
  have hmade : (Effect.sharpness amount).applyTo p = .ok (sharpen amount p) := if_pos hfinite
  -- The border is copied, the inner pixels are made from the square around them; a picture too
  -- narrow has no inner pixel.
  refine ⟨sharpen amount p, ?_, normalize_sharpen amount p, sameSize_sharpen amount p,
    Picture.hasAlpha_sharpen amount p, ?_, ?_,
    fun h => sharpen_of_narrow h amount⟩
  · rw [Builtin.apply, Effect.apply, hmade]
    rfl
  · intro x y hborder
    rw [Picture.toRgba_sharpen]
    refine at?_sharpenPixels_of_not_inner ?_ _
    rw [Bool.eq_false_iff, Ne, isInner_iff, (size_toRgba p).1, (size_toRgba p).2]
    omega
  · intro x y hplace
    rw [← (size_toRgba p).1, ← (size_toRgba p).2, ← isInner_iff] at hplace
    obtain ⟨square, hsquare⟩ := exists_around hplace
    refine ⟨square, hsquare, ?_⟩
    rw [Picture.toRgba_sharpen]
    exact hsquare.at?_sharpenPixels hplace amount

/-- A bright dot in red, a dark one in blue and an even green: the middle is driven to the ends of
the scale in red and blue, and keeps its green and its opacity. -/
theorem sharpness_apply_dot :
    let edge : Rgba UInt8 := ⟨0, 7, 100, 255⟩
    let p : Picture := .shallow
      (.rgba ⟨3, 3, #[edge, edge, edge, edge, ⟨100, 7, 0, 9⟩, edge, edge, edge, edge], rfl⟩)
    let s : Source := ⟨"a.png", "a.png", "a", 0⟩
    (Exact.ofFloat 1.0).isFinite = true ∧
      ∃ q, (Builtin.effect (.sharpness 1.0)).apply ⟨p, s⟩ none = .ok ⟨q, s⟩ ∧
        q.toRgba.at? 1 1 = some ⟨255, 7, 0, 9⟩ ∧ q.toRgba.at? 2 1 = some edge := by
  intro edge p s
  have hfinite : (Exact.ofFloat 1.0).isFinite = true := by decide +kernel
  obtain ⟨q, happly, -, -, -, hborder, hinner, -⟩ := sharpness_apply hfinite p s none
  obtain ⟨square, haround, hmiddle⟩ := hinner 1 1 (by decide)
  have hdot : Around p.toRgba 1 1 fun column row =>
    if column = 1 ∧ row = 1 then ⟨100, 7, 0, 9⟩ else edge := by
    unfold Around
    decide +kernel
  -- The square is determined by the pixels around the place.
  have hsquare : square = fun column row =>
    if column = 1 ∧ row = 1 then ⟨100, 7, 0, 9⟩ else edge := by
    funext column row
    exact Option.some.inj ((haround column row).symm.trans (hdot column row))
  refine ⟨hfinite, q, happly, ?_, ?_⟩
  · rw [hmiddle, hsquare]
    decide +kernel
  · rw [hborder 2 1 (by decide)]
    decide +kernel

end Sharpening

end AltRender

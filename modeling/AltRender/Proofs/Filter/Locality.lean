import AltRender.Proofs.Filter.Pixels

/-!
# `Proofs/Filter/Locality` — how far a pixel of the result looks

A pixel that a filter makes depends on the pixel in its place, and under sharpening on the eight
around it as well. So each sharpening in a chain lets a pixel look one further, and nothing else
does: pictures that agree around a position as far as there are sharpenings give the same pixel
there (`chain_local`). The margin, which sharpening leaves as it is, follows from the size of the
picture alone.

The distance is the greater of the two differences, across and down, because the neighbourhood of
sharpening is a square. Around a position nearby the pictures still agree, less far
(`AgreeAround.move`), and that is how several sharpenings add up. A chain without sharpening changes
every pixel on its own, by one function for the whole picture (`exists_pixel_foldl`).
-/

set_option autoImplicit false

namespace AltRender

/-! ## Agreement around a position -/

/-- How far apart two positions are, across or down, whichever is more. -/
def distance (x y x' y' : Nat) : Nat :=
  max (max (x - x') (x' - x)) (max (y - y') (y' - y))

theorem distance_le {x y x' y' d : Nat} :
    distance x y x' y' ≤ d ↔ x ≤ x' + d ∧ x' ≤ x + d ∧ y ≤ y' + d ∧ y' ≤ y + d := by
  unfold distance
  omega

theorem distance_self (x y : Nat) : distance x y x y = 0 := by
  unfold distance
  omega

theorem distance_triangle (x y x' y' x'' y'' : Nat) :
    distance x y x'' y'' ≤ distance x y x' y' + distance x' y' x'' y'' := by
  obtain ⟨hleft, hright, habove, hbelow⟩ := distance_le.mp (Nat.le_refl (distance x y x' y'))
  obtain ⟨hleft', hright', habove', hbelow'⟩ :=
    distance_le.mp (Nat.le_refl (distance x' y' x'' y''))
  exact distance_le.mpr ⟨by omega, by omega, by omega, by omega⟩

namespace Raster

variable {P Q : Type}

/-- Two rasters of one size with the same pixels as far as `d` from a position. -/
structure AgreeAround (d x y : Nat) (r s : Raster P) : Prop where
  width : r.width = s.width
  height : r.height = s.height
  at? : ∀ x' y', distance x y x' y' ≤ d → r.at? x' y' = s.at? x' y'

theorem AgreeAround.map {d x y : Nat} {r s : Raster P} (h : AgreeAround d x y r s) (f : P → Q) :
    AgreeAround d x y (r.map f) (s.map f) :=
  ⟨h.width, h.height, fun x' y' hnear => by rw [at?_map, at?_map, h.at? x' y' hnear]⟩

/-- Around a position nearby the rasters still agree, less far. -/
theorem AgreeAround.move {d k x y x' y' : Nat} {r s : Raster P} (h : AgreeAround (d + k) x y r s)
    (hnear : distance x y x' y' ≤ d) : AgreeAround k x' y' r s :=
  ⟨h.width, h.height, fun x'' y'' hk =>
    h.at? x'' y'' ((distance_triangle x y x' y' x'' y'').trans (Nat.add_le_add hnear hk))⟩

end Raster

/-! ## Sharpening -/

namespace Sharpening

open Raster

theorem neighbourhood_congr {P : Type} {x y : Nat} {r s : Raster P} (h : AgreeAround 1 x y r s) :
    neighbourhood r x y = neighbourhood s x y := by
  -- At the left and upper margin a place before the first is the first itself, which is no further
  -- away.
  refine List.filterMap_congr fun place hplace => h.at? _ _ (distance_le.mpr ?_)
  simp only [List.mem_cons, List.not_mem_nil, or_false] at hplace
  rcases hplace with rfl | rfl | rfl | rfl | rfl | rfl | rfl | rfl | rfl <;> dsimp only <;> omega

theorem isInner_congr {P : Type} {d x y : Nat} {r s : Raster P} (h : AgreeAround d x y r s) :
    isInner r x y = isInner s x y := by
  rw [isInner, isInner, h.width, h.height]

theorem sharpColour_congr {x y : Nat} {r s : Raster (Rgb UInt8)} (weights : List Float32)
    (h : AgreeAround 1 x y r s) : sharpColour weights r x y = sharpColour weights s x y := by
  rw [sharpColour, sharpColour, neighbourhood_congr h]

end Sharpening

/-! ## Effects -/

namespace Effect

open Raster

/-- How far a pixel that an effect makes looks. -/
def reach : Effect → Nat
  | .sharpness _ => 1
  | _ => 0

/-- **The pixel that an effect makes depends on those within its reach.** -/
theorem at?_onPixels_congr (e : Effect) {x y : Nat} {r s : Raster (Rgba UInt8)}
    (h : AgreeAround e.reach x y r s) : (e.onPixels r).at? x y = (e.onPixels s).at? x y := by
  have hhere : r.at? x y = s.at? x y := h.at? x y (by rw [distance_self]; exact Nat.zero_le _)
  cases e with
  | sharpness amount =>
    rw [onPixels, Sharpening.at?_sharpenPixels, Sharpening.at?_sharpenPixels, hhere,
      Sharpening.isInner_congr h, Sharpening.sharpColour_congr _ (h.map Rgba.colour)]
  | _ => rw [onPixels, at?_map, at?_map, hhere]

theorem size_onPixels (e : Effect) (r : Raster (Rgba UInt8)) :
    (e.onPixels r).width = r.width ∧ (e.onPixels r).height = r.height := by
  cases e <;> exact ⟨rfl, rfl⟩

theorem agreeAround_onPixels (e : Effect) {d x y : Nat} {r s : Raster (Rgba UInt8)}
    (h : AgreeAround (d + e.reach) x y r s) : AgreeAround d x y (e.onPixels r) (e.onPixels s) where
  width := by rw [(e.size_onPixels r).1, (e.size_onPixels s).1, h.width]
  height := by rw [(e.size_onPixels r).2, (e.size_onPixels s).2, h.height]
  at? _ _ hnear := e.at?_onPixels_congr (h.move hnear)

/-- **Effects shorten the agreement of two pictures by the sum of their reaches.** -/
theorem agreeAround_foldl (es : List Effect) {d x y : Nat} {r s : Raster (Rgba UInt8)}
    (h : AgreeAround (d + (es.map reach).sum) x y r s) :
    AgreeAround d x y (es.foldl (fun r e => e.onPixels r) r)
      (es.foldl (fun r e => e.onPixels r) s) := by
  induction es generalizing r s with
  | nil => exact h
  | cons e es ih =>
    rw [List.map_cons, List.sum_cons, Nat.add_comm e.reach, ← Nat.add_assoc] at h
    exact ih (e.agreeAround_onPixels h)

/-- **An effect without reach changes every pixel on its own.** -/
theorem exists_pixel_onPixels {e : Effect} (h : e.reach = 0) :
    ∃ f : Rgba UInt8 → Rgba UInt8, ∀ r, e.onPixels r = r.map f := by
  cases e with
  | sharpness amount => exact absurd h Nat.one_ne_zero
  | _ => exact ⟨_, fun _ => rfl⟩

theorem exists_pixel_foldl {es : List Effect} (h : (es.map reach).sum = 0) :
    ∃ f : Rgba UInt8 → Rgba UInt8, ∀ r, es.foldl (fun r e => e.onPixels r) r = r.map f := by
  induction es with
  | nil => exact ⟨id, fun r => r.map_id.symm⟩
  | cons e es ih =>
    rw [List.map_cons, List.sum_cons, Nat.add_eq_zero_iff] at h
    obtain ⟨f, hf⟩ := exists_pixel_onPixels h.1
    obtain ⟨g, hg⟩ := ih h.2
    exact ⟨g ∘ f, fun r => by rw [List.foldl_cons, hf, hg, Raster.map_map]⟩

end Effect

/-! ## Chains -/

namespace Builtin

open Raster

def isSharpness : Builtin → Bool
  | .effect (.sharpness _) => true
  | _ => false

theorem sum_reach_steps (b : Builtin) (theme : Option Theme) :
    ((b.steps theme).map Effect.reach).sum = if b.isSharpness then 1 else 0 := by
  cases b with
  | darkmode =>
    rw [steps]
    cases theme.getD Theme.usual <;> rfl
  | effect e => cases e <;> rfl

/-- **A chain reaches as far as it has filters that sharpen.** -/
theorem sum_reach_allSteps (bs : List Builtin) (theme : Option Theme) :
    ((allSteps theme bs).map Effect.reach).sum = bs.countP isSharpness := by
  induction bs with
  | nil => rfl
  | cons b bs ih =>
    rw [allSteps] at ih
    rw [allSteps, List.flatMap_cons, List.map_append, List.sum_append, sum_reach_steps, ih,
      List.countP_cons, Nat.add_comm]

/-- **A pixel of the result depends on as many pixels around as there are filters that sharpen:** of
two pictures of one mode and size that agree that far around a position, a chain makes pictures of
one mode that agree at the position. A chain that does not sharpen sends every pixel of every
picture through one function. -/
theorem chain_local (bs : List Builtin) (theme : Option Theme)
    (hfinite : ∀ b ∈ bs, b.refuses = false) :
    (∀ (w w' : Picture.Working) (s s' : Source) (x y : Nat),
      (Picture.ofWorking w).hasAlpha = (Picture.ofWorking w').hasAlpha →
      AgreeAround (bs.countP isSharpness) x y w.toRgba w'.toRgba →
      ∃ q q', Chain.apply (bs.map toFilter) ⟨Picture.ofWorking w, s⟩ theme = .ok ⟨q, s⟩ ∧
        Chain.apply (bs.map toFilter) ⟨Picture.ofWorking w', s'⟩ theme = .ok ⟨q', s'⟩ ∧
        q.hasAlpha = q'.hasAlpha ∧ q.toRgba.at? x y = q'.toRgba.at? x y) ∧
    (bs.countP isSharpness = 0 →
      ∃ f : Rgba UInt8 → Rgba UInt8, ∀ (w : Picture.Working) (s : Source),
        ∃ q, Chain.apply (bs.map toFilter) ⟨Picture.ofWorking w, s⟩ theme = .ok ⟨q, s⟩ ∧
          q.toRgba = w.toRgba.map f) := by
  have hrun := exists_run_allSteps hfinite theme
  -- Each step widens what a pixel depends on by its own reach, and over the chain these add up.
  constructor
  · intro w w' s s' x y halpha hagree
    obtain ⟨q, hq⟩ := hrun (Picture.ofWorking w)
    obtain ⟨q', hq'⟩ := hrun (Picture.ofWorking w')
    refine ⟨q, q', by rw [chain_apply, hq]; rfl, by rw [chain_apply, hq']; rfl, ?_, ?_⟩
    · rw [Effect.hasAlpha_run hq, Effect.hasAlpha_run hq', halpha]
    · rw [← sum_reach_allSteps bs theme, ← Nat.zero_add (List.sum _)] at hagree
      rw [Effect.toRgba_run hq, Effect.toRgba_run hq', Picture.toRgba_ofWorking,
        Picture.toRgba_ofWorking]
      exact (Effect.agreeAround_foldl _ hagree).at? x y (distance_self x y).le
  · intro hnone
    rw [← sum_reach_allSteps bs theme] at hnone
    obtain ⟨f, hf⟩ := Effect.exists_pixel_foldl hnone
    refine ⟨f, fun w s => ?_⟩
    obtain ⟨q, hq⟩ := hrun (Picture.ofWorking w)
    exact ⟨q, by rw [chain_apply, hq]; rfl,
      by rw [Effect.toRgba_run hq, Picture.toRgba_ofWorking, hf]⟩

/-- A corner two away from an inner pixel plays no part for it when the picture is sharpened
once. -/
theorem chain_local_corner :
    let bs : List Builtin := [.effect (.sharpness 1.0), .darkmode]
    let w : Picture.Working := .rgb ⟨4, 4, Array.replicate 16 ⟨0, 0, 0⟩, rfl⟩
    let w' : Picture.Working :=
      .rgb ⟨4, 4, (Array.replicate 15 ⟨0, 0, 0⟩).push ⟨255, 255, 255⟩, rfl⟩
    let s : Source := ⟨"a.png", "a.png", "a", 0⟩
    (∀ b ∈ bs, b.refuses = false) ∧ w.toRgba.at? 3 3 ≠ w'.toRgba.at? 3 3 ∧
      AgreeAround 1 1 1 w.toRgba w'.toRgba ∧
      (∃ q q', Chain.apply (bs.map toFilter) ⟨Picture.ofWorking w, s⟩ none = .ok ⟨q, s⟩ ∧
        Chain.apply (bs.map toFilter) ⟨Picture.ofWorking w', s⟩ none = .ok ⟨q', s⟩ ∧
        q.hasAlpha = q'.hasAlpha ∧ q.toRgba.at? 1 1 = q'.toRgba.at? 1 1) ∧
      ∃ f : Rgba UInt8 → Rgba UInt8, ∀ (v : Picture.Working) (s : Source),
        ∃ q, Chain.apply [darkmode.toFilter] ⟨Picture.ofWorking v, s⟩ none = .ok ⟨q, s⟩ ∧
          q.toRgba = v.toRgba.map f := by
  intro bs w w' s
  have hfinite : ∀ b ∈ bs, b.refuses = false := by decide +kernel
  have hagree : AgreeAround 1 1 1 w.toRgba w'.toRgba := by
    have hplaces : ∀ x < 3, ∀ y < 3, w.toRgba.at? x y = w'.toRgba.at? x y := by decide +kernel
    refine ⟨rfl, rfl, fun x y hnear => ?_⟩
    obtain ⟨-, hx, -, hy⟩ := distance_le.mp hnear
    exact hplaces x (Nat.lt_succ_of_le hx) y (Nat.lt_succ_of_le hy)
  exact ⟨hfinite, by decide +kernel, hagree,
    (chain_local bs none hfinite).1 w w' s s 1 1 rfl hagree,
    (chain_local [darkmode] none (by decide)).2 rfl⟩

end Builtin

end AltRender

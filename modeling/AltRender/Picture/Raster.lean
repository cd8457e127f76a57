/-!
# `Picture/Raster` — pixels in rows

A raster is a rectangle of pixels of one kind, stored row by row from the top left. That it holds
exactly `width · height` of them is part of the type, so no operation can leave a row short, and an
access inside the rectangle always finds a pixel.

Pixels are reached by column and row, counted from zero, or by their index in the order of the rows;
`index_lt` is what takes the first to the second. Changing every pixel keeps the shape by its type,
and changes made one after the other are one change (`map_map`).
-/

set_option autoImplicit false

namespace AltRender

/-- A rectangle of pixels, row by row. -/
structure Raster (P : Type) where
  width : Nat
  height : Nat
  pixels : Array P
  size_pixels : pixels.size = width * height

namespace Raster

variable {P Q : Type}

@[ext] theorem ext {r s : Raster P} (hw : r.width = s.width) (hh : r.height = s.height)
    (hp : r.pixels = s.pixels) : r = s := by
  cases r
  cases s
  cases hw
  cases hh
  cases hp
  rfl

/-- A position inside the rectangle is the index of a pixel. -/
theorem index_lt (r : Raster P) {x y : Nat} (hx : x < r.width) (hy : y < r.height) :
    y * r.width + x < r.pixels.size := by
  rw [r.size_pixels]
  calc y * r.width + x < y * r.width + r.width := by omega
    _ = (y + 1) * r.width := by rw [Nat.succ_mul]
    _ ≤ r.height * r.width := Nat.mul_le_mul_right _ hy
    _ = r.width * r.height := Nat.mul_comm _ _

/-- The pixel in column `x` of row `y`. -/
def at? (r : Raster P) (x y : Nat) : Option P :=
  if x < r.width ∧ y < r.height then r.pixels[y * r.width + x]? else none

def map (f : P → Q) (r : Raster P) : Raster Q :=
  ⟨r.width, r.height, r.pixels.map f, by simp [r.size_pixels]⟩

/-- Every pixel changed on its own, with its index in the row-by-row order at hand. -/
def mapIdx (f : Nat → P → Q) (r : Raster P) : Raster Q :=
  ⟨r.width, r.height, r.pixels.mapIdx f, by simp [r.size_pixels]⟩

/-- Every pixel combined with the one at the same place of a raster of the same shape; where the
other raster has none, the pixel stays. -/
def zipWith (f : P → Q → P) (r : Raster P) (s : Raster Q) : Raster P :=
  r.mapIdx fun i p =>
    match s.pixels[i]? with
    | some q => f p q
    | none => p

/-- A raster from a list of pixels, if their number fits the shape. -/
def ofList? (width height : Nat) (pixels : List P) : Option (Raster P) :=
  if h : pixels.length = width * height then some ⟨width, height, pixels.toArray, by simpa using h⟩
    else none

@[simp] theorem width_map (f : P → Q) (r : Raster P) : (r.map f).width = r.width := rfl

@[simp] theorem height_map (f : P → Q) (r : Raster P) : (r.map f).height = r.height := rfl

@[simp] theorem width_mapIdx (f : Nat → P → Q) (r : Raster P) : (r.mapIdx f).width = r.width := rfl

@[simp] theorem height_mapIdx (f : Nat → P → Q) (r : Raster P) : (r.mapIdx f).height = r.height :=
  rfl

/-- **Changing every pixel changes the one at each position.** -/
@[simp] theorem at?_map (f : P → Q) (r : Raster P) (x y : Nat) :
    (r.map f).at? x y = (r.at? x y).map f := by
  by_cases h : x < r.width ∧ y < r.height <;> simp [at?, map, h]

@[simp] theorem at?_mapIdx (f : Nat → P → Q) (r : Raster P) (x y : Nat) :
    (r.mapIdx f).at? x y = (r.at? x y).map (f (y * r.width + x)) := by
  by_cases h : x < r.width ∧ y < r.height <;> simp [at?, mapIdx, h]

theorem map_map {R : Type} (f : P → Q) (g : Q → R) (r : Raster P) :
    (r.map f).map g = r.map (g ∘ f) := by
  ext1 <;> simp [map]

theorem map_id (r : Raster P) : r.map id = r := by
  ext1 <;> simp [map]

end Raster

end AltRender

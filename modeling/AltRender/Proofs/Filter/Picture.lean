import AltRender.Proofs.Filter.Signature

/-!
# `Proofs/Filter/Picture` — filters look at the picture alone

A frame carries its source along, but no built-in filter asks where a picture came from: what it
makes of the picture depends on the picture and the theme. None changes the size of a picture, and
none leaves the two working forms: a picture in one of them is in one of them afterwards.

All of this holds for chains, since a chain is its filters one after the other. It is said once, by
a `Change`: a way to change pictures that carries its two laws with it. An effect is a change,
changes can be put one after the other, and every chain of built-in filters has one that describes
it (`Chain.exists_change`).
-/

set_option autoImplicit false

namespace AltRender

/-! ## Sizes -/

/-- Two pictures of one size. -/
def SameSize (p q : Picture) : Prop :=
  q.width = p.width ∧ q.height = p.height

theorem SameSize.trans {p q r : Picture} (h : SameSize p q) (h' : SameSize q r) : SameSize p r :=
  ⟨h'.1.trans h.1, h'.2.trans h.2⟩

theorem size_toShallow (p : Picture) :
    p.toShallow.width = p.width ∧ p.toShallow.height = p.height := by
  cases p with
  | shallow b => exact ⟨rfl, rfl⟩
  | deep b => cases b <;> exact ⟨rfl, rfl⟩

theorem size_toWorking (p : Picture) : SameSize p (Picture.ofWorking p.toWorking) := by
  rw [SameSize, ← (size_toShallow p).1, ← (size_toShallow p).2, Picture.toWorking]
  cases p.toShallow <;> exact ⟨rfl, rfl⟩

theorem size_toRgba (p : Picture) : p.toRgba.width = p.width ∧ p.toRgba.height = p.height := by
  rw [← (size_toShallow p).1, ← (size_toShallow p).2, Picture.toRgba]
  cases p.toShallow <;> exact ⟨rfl, rfl⟩

theorem sameSize_mapColours (f : Rgb UInt8 → Rgb UInt8) (p : Picture) :
    SameSize p (p.mapColours f) := by
  refine (size_toWorking p).trans ?_
  rw [Picture.mapColours]
  cases p.toWorking <;> exact ⟨rfl, rfl⟩

theorem sameSize_cutOut (threshold : Cutout.Threshold) (side : Cutout.Side) (p : Picture) :
    SameSize p (Cutout.cutOut threshold side p) :=
  size_toRgba p

theorem sameSize_sharpen (amount : Float) (p : Picture) :
    SameSize p (Sharpening.sharpen amount p) := by
  refine (size_toWorking p).trans ?_
  rw [Sharpening.sharpen]
  cases p.toWorking <;> exact ⟨rfl, rfl⟩

/-- Where sharpening does not fail, it makes the sharpened picture. -/
theorem Effect.eq_sharpen_of_applyTo {amount : Float} {p q : Picture}
    (h : (sharpness amount).applyTo p = .ok q) : q = Sharpening.sharpen amount p := by
  simp only [applyTo] at h
  split at h
  · exact (Except.ok.inj h).symm
  · exact absurd h (by simp)

theorem Effect.sameSize_applyTo {e : Effect} {p q : Picture} (h : e.applyTo p = .ok q) :
    SameSize p q := by
  cases e with
  | invert => exact Except.ok.inj h ▸ sameSize_mapColours _ p
  | contrast amount => exact Except.ok.inj h ▸ sameSize_mapColours _ p
  | boostLightness amount => exact Except.ok.inj h ▸ sameSize_mapColours _ p
  | transparent threshold side => exact Except.ok.inj h ▸ sameSize_cutOut threshold side p
  | sharpness amount => exact eq_sharpen_of_applyTo h ▸ sameSize_sharpen amount p

/-! ## Working forms -/

namespace Picture

/-- A picture with its colours changed is in a working form, whatever form it had. -/
theorem exists_working_mapColours (f : Rgb UInt8 → Rgb UInt8) (p : Picture) :
    ∃ w, p.mapColours f = ofWorking w := by
  rw [mapColours]
  cases p.toWorking with
  | rgb r => exact ⟨.rgb _, rfl⟩
  | rgba r => exact ⟨.rgba _, rfl⟩

end Picture

theorem Sharpening.exists_working_sharpen (amount : Float) (p : Picture) :
    ∃ w, sharpen amount p = Picture.ofWorking w := by
  rw [sharpen]
  cases p.toWorking with
  | rgb r => exact ⟨.rgb _, rfl⟩
  | rgba r => exact ⟨.rgba _, rfl⟩

theorem Effect.exists_working_of_applyTo {e : Effect} {p q : Picture} (h : e.applyTo p = .ok q) :
    ∃ w, q = Picture.ofWorking w := by
  cases e with
  | invert => exact Except.ok.inj h ▸ p.exists_working_mapColours _
  | contrast amount => exact Except.ok.inj h ▸ p.exists_working_mapColours _
  | boostLightness amount => exact Except.ok.inj h ▸ p.exists_working_mapColours _
  | transparent threshold side => exact Except.ok.inj h ▸ ⟨.rgba _, rfl⟩
  | sharpness amount => exact eq_sharpen_of_applyTo h ▸ Sharpening.exists_working_sharpen amount p

/-! ## What filters do to pictures -/

/-- A way to change pictures under a theme that keeps their size and does not leave the working
forms. -/
structure Change where
  make : Option Theme → Picture → Except FilterFault Picture
  sameSize : ∀ {theme p q}, make theme p = .ok q → SameSize p q
  working : ∀ {theme w q}, make theme (Picture.ofWorking w) = .ok q → ∃ v, q = Picture.ofWorking v

/-- Whether something done to frames is done to the picture, with the source left as it is. -/
def Change.Describes (c : Change) (apply : Frame → Option Theme → Except FilterFault Frame) :
    Prop :=
  ∀ f theme, apply f theme = (c.make theme f.picture).map fun p => { f with picture := p }

/-- Nothing done. -/
def Change.none : Change where
  make _ p := .ok p
  sameSize h := Except.ok.inj h ▸ ⟨rfl, rfl⟩
  working h := ⟨_, (Except.ok.inj h).symm⟩

/-- One change after another. -/
def Change.andThen (c c' : Change) : Change where
  make theme p := (c.make theme p).bind (c'.make theme)
  sameSize := by
    intro theme p q h
    cases hp : c.make theme p with
    | error e => rw [hp] at h; exact absurd h (by simp [Except.bind])
    | ok r =>
      rw [hp] at h
      exact (c.sameSize hp).trans (c'.sameSize h)
  working := by
    intro theme w q h
    cases hp : c.make theme (Picture.ofWorking w) with
    | error e => rw [hp] at h; exact absurd h (by simp [Except.bind])
    | ok r =>
      rw [hp] at h
      obtain ⟨v, rfl⟩ := c.working hp
      exact c'.working h

theorem Change.Describes.andThen {c c' : Change}
    {apply apply' : Frame → Option Theme → Except FilterFault Frame} (h : c.Describes apply)
    (h' : c'.Describes apply') :
    (c.andThen c').Describes fun f theme => (apply f theme).bind fun g => apply' g theme := by
  intro f theme
  change (apply f theme).bind _ = ((c.make theme f.picture).bind (c'.make theme)).map _
  rw [h f theme]
  cases c.make theme f.picture with
  | error e => rfl
  | ok p => exact h' { f with picture := p } theme

/-- The change that an effect makes. -/
def Effect.change (e : Effect) : Change where
  make _ p := e.applyTo p
  sameSize := Effect.sameSize_applyTo
  working := Effect.exists_working_of_applyTo

/-- The change that some effects make, one after the other. -/
def Effect.changes (es : List Effect) : Change :=
  es.foldr (fun e c => e.change.andThen c) Change.none

theorem Effect.changes_describes (es : List Effect) :
    (Effect.changes es).Describes fun f _ => es.foldlM (fun frame e => e.apply frame) f := by
  induction es with
  | nil => exact fun _ _ => rfl
  | cons e rest ih => exact Change.Describes.andThen (c := e.change) (fun _ _ => rfl) ih

/-- The change that adapts a picture to a theme. -/
def Builtin.darkmodeChange : Change where
  make theme := (Effect.changes (darkmodeSteps (theme.getD Theme.usual))).make theme
  sameSize h := (Effect.changes _).sameSize h
  working h := (Effect.changes _).working h

theorem Builtin.exists_change (b : Builtin) : ∃ c : Change, c.Describes b.apply := by
  cases b with
  | effect e => exact ⟨e.change, fun _ _ => rfl⟩
  | darkmode => exact ⟨darkmodeChange, fun f theme => Effect.changes_describes _ f theme⟩

/-- **A chain of built-in filters looks at the picture alone,** keeps its size and leaves it in a
working form. -/
theorem Chain.exists_change {c : Chain} (h : c.IsBuiltin) : ∃ g : Change, g.Describes c.apply := by
  induction c with
  | nil => exact ⟨Change.none, fun _ _ => rfl⟩
  | cons f c ih =>
    obtain ⟨⟨name, ps, hcreate⟩, hrest⟩ := isBuiltin_cons h
    obtain ⟨b, rfl⟩ := Registry.exists_of_create_builtin hcreate
    obtain ⟨g, hg⟩ := b.exists_change
    obtain ⟨g', hg'⟩ := ih hrest
    exact ⟨g.andThen g', hg.andThen hg'⟩

end AltRender

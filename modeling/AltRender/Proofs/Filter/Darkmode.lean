import AltRender.Proofs.Filter.Directive
import AltRender.Proofs.Filter.Pixels

/-!
# `Proofs/Filter/Darkmode` — the adaptation to a theme, spelled out

`darkmode` runs other filters, and a reader may ask for these in so many words (`darkmodeText`). The
filters it runs are fixed, while those of the words are read, looked up and made from defaults, so
that the two are the same is a fact about all of that. It comes down to the signatures, which decide
a built-in filter (`chainOf_darkmodeText`). Each filter of a chain may be replaced by a chain that
does the same (`Chain.apply_flatMap_congr`), so `darkmode` may be spelled out wherever it stands.

Both names of `darkmode` are covered, in whatever chain they stand and under every theme. A chain is
refused alike with either spelling, because none of the filters that `darkmode` runs ever refuses a
picture.
-/

set_option autoImplicit false

namespace AltRender

namespace Chain

/-- **Parts of a chain may be replaced by parts that do the same.** -/
theorem apply_flatMap_congr {α : Type} {xs : List α} {g h : α → Chain} {theme : Option Theme}
    (hsame : ∀ x ∈ xs, ∀ f, apply (g x) f theme = apply (h x) f theme) (f : Frame) :
    apply (xs.flatMap g) f theme = apply (xs.flatMap h) f theme := by
  induction xs generalizing f with
  | nil => rfl
  | cons x xs ih =>
    obtain ⟨hfirst, hrest⟩ := List.forall_mem_cons.mp hsame
    rw [List.flatMap_cons, List.flatMap_cons, apply_append, apply_append, hfirst f]
    exact congrArg _ (funext (ih hrest))

/-- **A chain of built-in filters is decided by its signatures.** -/
theorem IsBuiltin.eq_of_signatures {c : Chain} (h : c.IsBuiltin) {bs : List Builtin}
    (hsignatures : c.signatures = bs.map Builtin.signature) : c = bs.map Builtin.toFilter := by
  induction c generalizing bs with
  | nil =>
    rw [List.map_eq_nil_iff.mp hsignatures.symm]
    rfl
  | cons f c ih => cases bs with
    | nil => exact absurd hsignatures (by simp [signatures])
    | cons b bs =>
      obtain ⟨hfirst, hrest⟩ := List.cons.inj hsignatures
      obtain ⟨⟨name, ps, hcreate⟩, hc⟩ := isBuiltin_cons h
      obtain ⟨b', rfl⟩ := Registry.exists_of_create_builtin hcreate
      rw [List.map_cons, Builtin.toFilter_eq_of_signature hfirst, ih hc hrest]

end Chain

namespace Builtin

/-- The directives that `darkmode` stands for under a theme. -/
def darkmodeText : Option Theme → String
  | none | some .dark => "@invert @transparent @boost-lightness"
  | some .light => "@transparent(threshold=#f0f0f0, remove=above) @boost-lightness(amount=0.85)"

/-- **The words make the filters that `darkmode` runs.** -/
theorem chainOf_darkmodeText (theme : Option Theme) :
    Registry.builtin.chainOf (darkmodeText theme) =
      ((darkmode.steps theme).map effect).map toFilter := by
  refine (Chain.isBuiltin_chainOf _).eq_of_signatures ?_
  rcases theme with _ | _ | _ <;> decide +kernel

theorem apply_chainOf_darkmodeText (theme : Option Theme) (f : Frame) :
    Chain.apply (Registry.builtin.chainOf (darkmodeText theme)) f theme =
      darkmode.apply f theme := by
  rw [chainOf_darkmodeText, chain_apply, allSteps_effects, apply_eq_run]

/-- A built-in filter as a chain, with `darkmode` in so many words. -/
def spelledOut (theme : Option Theme) : Builtin → Chain
  | .effect e => [(effect e).toFilter]
  | .darkmode => Registry.builtin.chainOf (darkmodeText theme)

theorem apply_singleton (b : Builtin) (f : Frame) (theme : Option Theme) :
    Chain.apply [b.toFilter] f theme = b.apply f theme := by
  rw [Chain.apply_cons]
  exact bind_pure (b.apply f theme)

theorem apply_spelledOut (b : Builtin) (f : Frame) (theme : Option Theme) :
    Chain.apply (b.spelledOut theme) f theme = b.apply f theme := by
  cases b with
  | effect e => exact apply_singleton (effect e) f theme
  | darkmode => exact apply_chainOf_darkmodeText theme f

theorem apply_flatMap_spelledOut (bs : List Builtin) (f : Frame) (theme : Option Theme) :
    Chain.apply (bs.flatMap (spelledOut theme)) f theme =
      Chain.apply (bs.map toFilter) f theme := by
  rw [List.map_eq_flatMap]
  refine Chain.apply_flatMap_congr (fun b _ g => ?_) f
  rw [apply_spelledOut, apply_singleton]

end Builtin

namespace Registry

/-- The names of `darkmode`. -/
def IsDarkmode (name : String) : Prop :=
  name = "darkmode" ∨ name = "dark"

instance (name : String) : Decidable (IsDarkmode name) :=
  inferInstanceAs (Decidable (_ ∨ _))

theorem create_darkmode {name : String} (h : IsDarkmode name) (ps : Parameters) :
    builtin.create name ps = some Builtin.darkmode.toFilter := by
  obtain rfl | rfl := h <;> rfl

/-- The chain of a request, with `darkmode` in so many words. -/
def spelledOut (theme : Option Theme) (s : Spec) : Chain :=
  if IsDarkmode s.name then builtin.chainOf (Builtin.darkmodeText theme) else builtin.resolve [s]

theorem apply_spelledOut (s : Spec) (f : Frame) (theme : Option Theme) :
    Chain.apply (spelledOut theme s) f theme = Chain.apply (builtin.resolve [s]) f theme := by
  unfold spelledOut
  split
  · next hname =>
    rw [Builtin.apply_chainOf_darkmodeText, resolve, List.filterMap_cons, create_darkmode hname]
    exact (Builtin.apply_singleton _ f theme).symm
  · rfl

/-- A chain is made request by request. -/
theorem resolve_eq_flatMap (requests : List Spec) :
    builtin.resolve requests = requests.flatMap fun s => builtin.resolve [s] := by
  induction requests with
  | nil => rfl
  | cons s requests ih =>
    rw [List.flatMap_cons, ← ih, ← resolve_append, List.singleton_append]

/-- **`darkmode` may be spelled out in any chain.** Under every theme and for every frame, a chain
of built-in filters makes the same frame or has the same fault when each `darkmode` in it is
replaced by the filters that are read from `darkmodeText`. This holds for filters however they came
about, and for filters as requests name them, under both names of `darkmode` and with any
arguments. -/
theorem darkmode_spelledOut (f : Frame) (theme : Option Theme) :
    (∀ bs : List Builtin, Chain.apply (bs.flatMap (Builtin.spelledOut theme)) f theme =
        Chain.apply (bs.map Builtin.toFilter) f theme) ∧
      ∀ requests : List Spec, Chain.apply (requests.flatMap (spelledOut theme)) f theme =
        Chain.apply (builtin.resolve requests) f theme := by
  refine ⟨fun bs => Builtin.apply_flatMap_spelledOut bs f theme, fun requests => ?_⟩
  rw [resolve_eq_flatMap]
  exact Chain.apply_flatMap_congr (fun s _ g => apply_spelledOut s g theme) f

end Registry

end AltRender

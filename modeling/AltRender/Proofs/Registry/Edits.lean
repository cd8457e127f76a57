import AltRender.Registry

/-!
# `Proofs/Registry/Edits` — what edits leave of names and aliases

A registry is edited in three ways, in any order and with any names: an alias may come over a filter
of the same name, and a filter may be registered where there was an alias. What a name makes is
found by two look-ups, of the alias and then of the maker, and each edit has one equation for each
of them. It follows that no alias ever stands for a name that is gone (`Anchored.editAll`), and so
what can be made is what is listed (`editAll_consistent`).

Unregistering a name takes the filter of that name with all its aliases, or else the alias of that
name. One thing is left: where a filter has an alias of another filter over its name, the alias
stays (`unregister_forgets`).
-/

set_option autoImplicit false

namespace AltRender.Registry

/-! ## Edits -/

/-- What may be done to a registry. -/
inductive Edit where
  | register (name : String) (maker : Maker)
  | addAlias (other target : String)
  | unregister (name : String)

def edit (r : Registry) : Edit → Registry
  | .register name maker => r.register name maker
  | .addAlias other target => (r.addAlias other target).2
  | .unregister name => (r.unregister name).2

/-- The registry after several edits. -/
def editAll (r : Registry) (edits : List Edit) : Registry :=
  edits.foldl edit r

/-- The maker of a name after an edit, if one knows that before it. Aliases play no part. -/
def Edit.makerOf (name : String) (before : Option Maker) : Edit → Option Maker
  | .register name' maker => if name' = name then some maker else before
  | .addAlias .. => before
  | .unregister name' => if name' = name then none else before

/-- **The maker that was registered last under a name,** unless the name was unregistered after
that. -/
def makerAfter (name : String) (before : Option Maker) (edits : List Edit) : Option Maker :=
  edits.foldl (Edit.makerOf name) before

variable {r start : Registry} {name other target : String}

theorem isRegistered_iff : r.isRegistered name = true ↔ name ∈ r.names := by
  rw [isRegistered, Keyed.contains, Option.isSome_iff_exists, names, Keyed.mem_keys_iff_get?]

theorem isAlias_iff : name ∈ r.aliases.keys ↔ ∃ target, r.aliases.get? name = some target :=
  Keyed.mem_keys_iff_get? r.aliases name

/-! ## The two look-ups after an edit -/

@[simp] theorem get?_makers_register (r : Registry) (name : String) (maker : Maker) (k : String) :
    (r.register name maker).makers.get? k = if name = k then some maker else r.makers.get? k :=
  Keyed.get?_insert r.makers name k maker

@[simp] theorem get?_aliases_register (r : Registry) (name : String) (maker : Maker) (k : String) :
    (r.register name maker).aliases.get? k = if k = name then none else r.aliases.get? k :=
  Keyed.get?_erase r.aliases name k

@[simp] theorem makers_addAlias (r : Registry) (other target : String) :
    (r.addAlias other target).2.makers = r.makers := by
  unfold addAlias
  split <;> rfl

@[simp] theorem get?_aliases_addAlias (r : Registry) (other target k : String) :
    (r.addAlias other target).2.aliases.get? k =
      if r.isRegistered target = true ∧ other = k then some target else r.aliases.get? k := by
  unfold addAlias
  cases r.isRegistered target with
  | true => simp
  | false => simp

@[simp] theorem get?_makers_unregister (r : Registry) (name k : String) :
    (r.unregister name).2.makers.get? k = if k = name then none else r.makers.get? k := by
  unfold unregister
  split
  · exact Keyed.get?_erase r.makers name k
  · rename_i hname
    split
    · rename_i hk
      rw [isRegistered, Keyed.contains, Bool.not_eq_true, Option.isSome_eq_false_iff,
        Option.isNone_iff_eq_none] at hname
      rw [hk, hname]
    · rfl

theorem get?_aliases_unregister_of_registered (h : r.isRegistered name = true) (k : String) :
    (r.unregister name).2.aliases.get? k = (r.aliases.get? k).filter (· ≠ name) := by
  rw [unregister, if_pos h, Keyed.get?_retain]

theorem get?_aliases_unregister_of_not_registered (h : r.isRegistered name = false) (k : String) :
    (r.unregister name).2.aliases.get? k = if k = name then none else r.aliases.get? k := by
  rw [unregister, if_neg (by rw [h]; decide), Keyed.get?_erase]

theorem get?_makers_edit (r : Registry) (e : Edit) (name : String) :
    (r.edit e).makers.get? name = e.makerOf name (r.makers.get? name) := by
  cases e with
  | register name' maker => simp [edit, Edit.makerOf]
  | addAlias other target => simp [edit, Edit.makerOf]
  | unregister name' => simp [edit, Edit.makerOf, eq_comm]

/-- **What is under a name is what was registered there last.** -/
theorem get?_makers_editAll (r : Registry) (edits : List Edit) (name : String) :
    (r.editAll edits).makers.get? name = makerAfter name (r.makers.get? name) edits := by
  induction edits generalizing r with
  | nil => rfl
  | cons e rest ih =>
    have hrest := ih (r.edit e)
    rw [get?_makers_edit] at hrest
    exact hrest

/-! ## Aliases stand for registered names -/

/-- No alias stands for a name that is not registered. -/
def Anchored (r : Registry) : Prop :=
  ∀ other target, r.aliases.get? other = some target → r.isRegistered target = true

theorem isRegistered_of_get? {maker : Maker} (h : r.makers.get? name = some maker) :
    r.isRegistered name = true := by
  rw [isRegistered, Keyed.contains, h]
  rfl

theorem exists_maker (h : r.isRegistered name = true) : ∃ maker, r.makers.get? name = some maker :=
  Option.isSome_iff_exists.mp h

theorem Anchored.register (h : r.Anchored) (name : String) (maker : Maker) :
    (r.register name maker).Anchored := by
  intro other target halias
  rw [get?_aliases_register] at halias
  split at halias
  · exact absurd halias (by simp)
  · obtain ⟨maker', hmaker'⟩ := exists_maker (h other target halias)
    by_cases htarget : name = target
    · have hmaker : (r.register name maker).makers.get? target = some maker := by
        rw [get?_makers_register, if_pos htarget]
      exact isRegistered_of_get? hmaker
    · exact isRegistered_of_get? (by rw [get?_makers_register, if_neg htarget, hmaker'])

theorem Anchored.addAlias (h : r.Anchored) (other target : String) :
    (r.addAlias other target).2.Anchored := by
  intro other' target' halias
  rw [isRegistered, makers_addAlias]
  rw [get?_aliases_addAlias] at halias
  split at halias
  · rename_i hadded
    exact Option.some.inj halias ▸ hadded.1
  · exact h other' target' halias

theorem Anchored.unregister (h : r.Anchored) (name : String) : (r.unregister name).2.Anchored := by
  intro other target halias
  have hstays : r.aliases.get? other = some target ∧ target ≠ name := by
    cases hname : r.isRegistered name with
    | true =>
      rw [get?_aliases_unregister_of_registered hname, Option.filter_eq_some_iff] at halias
      exact ⟨halias.1, by simpa using halias.2⟩
    | false =>
      rw [get?_aliases_unregister_of_not_registered hname] at halias
      split at halias
      · exact absurd halias (by simp)
      · -- Nothing was registered under the name, so no alias stands for it.
        refine ⟨halias, ?_⟩
        rintro rfl
        rw [h other target halias] at hname
        exact absurd hname (by decide)
  obtain ⟨maker, hmaker⟩ := exists_maker (h other target hstays.1)
  exact isRegistered_of_get? (by rw [get?_makers_unregister, if_neg hstays.2, hmaker])

theorem Anchored.edit (h : r.Anchored) (e : Edit) : (r.edit e).Anchored := by
  cases e with
  | register name maker => exact h.register name maker
  | addAlias other target => exact h.addAlias other target
  | unregister name => exact h.unregister name

/-- **No edits leave an alias of nothing.** -/
theorem Anchored.editAll (h : r.Anchored) (edits : List Edit) : (r.editAll edits).Anchored := by
  induction edits generalizing r with
  | nil => exact h
  | cons e rest ih => exact ih (h.edit e)

theorem anchored_empty : empty.Anchored := by
  intro other target halias
  exact absurd halias (by simp [empty])

/-- The edits that make the built-in registry. -/
def builtinEdits : List Edit :=
  (Builtin.makers.map fun m => .register m.1 (builtinMaker m.2)) ++ [.addAlias "dark" "darkmode"]

theorem editAll_builtinEdits : empty.editAll builtinEdits = builtin := rfl

theorem anchored_builtin : builtin.Anchored :=
  editAll_builtinEdits ▸ anchored_empty.editAll builtinEdits

theorem anchored_editAll (hstart : start = empty ∨ start = builtin) (edits : List Edit) :
    (start.editAll edits).Anchored := by
  rcases hstart with rfl | rfl
  · exact anchored_empty.editAll edits
  · exact anchored_builtin.editAll edits

/-! ## What can be made -/

theorem maker?_of_alias (h : r.aliases.get? other = some target) :
    r.maker? other = r.makers.get? target := by
  rw [maker?, h, Option.getD_some]

theorem maker?_of_not_alias (h : r.aliases.get? name = none) :
    r.maker? name = r.makers.get? name := by
  rw [maker?, h, Option.getD_none]

theorem create_of_maker? {maker : Maker} (h : r.maker? name = some maker) (ps : Parameters) :
    r.create name ps = some (maker ps) := by
  rw [create, h, Option.map_some]

theorem create_register (r : Registry) (name : String) (maker : Maker) (ps : Parameters) :
    (r.register name maker).create name ps = some (maker ps) := by
  have hnot : (r.register name maker).aliases.get? name = none := by
    rw [get?_aliases_register, if_pos rfl]
  exact create_of_maker? (by rw [maker?_of_not_alias hnot, get?_makers_register, if_pos rfl]) ps

theorem Anchored.contains_of_alias (h : r.Anchored) (halias : r.aliases.get? other = some target) :
    r.contains other = true := by
  obtain ⟨maker, hmaker⟩ := exists_maker (h other target halias)
  rw [contains, maker?_of_alias halias, hmaker]
  rfl

theorem contains_of_not_alias (h : r.aliases.get? name = none) :
    r.contains name = r.isRegistered name := by
  rw [contains, maker?_of_not_alias h]
  rfl

theorem Anchored.contains_iff (h : r.Anchored) (name : String) :
    r.contains name = true ↔ name ∈ r.names ∨ name ∈ r.aliases.keys := by
  rw [← isRegistered_iff, isAlias_iff]
  cases halias : r.aliases.get? name with
  | none => simp [contains_of_not_alias halias]
  | some target => simp [h.contains_of_alias halias]

/-- **A registry after edits is consistent.** No name is listed twice, and no alias; what is listed
is what can be made; an alias stands for a registered name and makes what was registered there last;
and what is registered under a name is what the name makes from then on, even if it was an alias. -/
structure Consistent (start : Registry) (edits : List Edit) : Prop where
  names_distinct : (start.editAll edits).names.Nodup
  aliases_distinct : (start.editAll edits).aliases.keys.Nodup
  contains_iff : ∀ name, (start.editAll edits).contains name = true ↔
    name ∈ (start.editAll edits).names ∨ name ∈ (start.editAll edits).aliases.keys
  alias_stands : ∀ other target, (start.editAll edits).aliases.get? other = some target →
    target ∈ (start.editAll edits).names ∧
    ∃ maker, makerAfter target (start.makers.get? target) edits = some maker ∧
      ∀ ps, (start.editAll edits).create other ps = some (maker ps)
  create_register :
    ∀ name maker ps, ((start.editAll edits).register name maker).create name ps = some (maker ps)

theorem editAll_consistent {start : Registry} (hstart : start = empty ∨ start = builtin)
    (edits : List Edit) : Consistent start edits := by
  have hanchored := anchored_editAll hstart edits
  refine ⟨(start.editAll edits).makers.distinct, (start.editAll edits).aliases.distinct,
    hanchored.contains_iff, ?_,
    create_register _⟩
  intro other target halias
  have hregistered := hanchored other target halias
  obtain ⟨maker, hmaker⟩ := exists_maker hregistered
  refine ⟨isRegistered_iff.mp hregistered, maker, ?_, ?_⟩
  · rw [← get?_makers_editAll, hmaker]
  · exact create_of_maker? (by rw [maker?_of_alias halias, hmaker])

/-- Edits after which `invert` is an alias of `contrast` over the filter of that name, and
`contrast` refuses everything. -/
def shadowing : List Edit :=
  [.addAlias "invert" "contrast", .register "contrast" fun _ => .refusing "contrast" "always",
    .addAlias "dark" "nothing", .unregister "darkmode"]

/-- Of the aliases there were, the one of what was unregistered is gone, and the other makes what is
registered now. -/
theorem editAll_consistent_shadowing :
    Consistent builtin shadowing ∧ (builtin.editAll shadowing).aliases.keys = ["invert"] ∧
      ((builtin.editAll shadowing).create "invert" Keyed.empty).map Filter.signature =
        some "contrast" ∧
      (builtin.editAll shadowing).contains "dark" = false :=
  ⟨editAll_consistent (.inr rfl) shadowing, by decide⟩

/-! ## What is left of a name -/

/-- A filter is registered under the name, and the name is an alias of another filter. -/
def Shadowed (r : Registry) (name : String) : Prop :=
  r.isRegistered name = true ∧ ∃ target, target ≠ name ∧ r.aliases.get? name = some target

theorem Anchored.unregister_fst (h : r.Anchored) (name : String) :
    (r.unregister name).1 = r.contains name := by
  cases hname : r.isRegistered name with
  | true =>
    have hcontains := (h.contains_iff name).mpr (.inl (isRegistered_iff.mp hname))
    rw [Registry.unregister, if_pos hname, hcontains]
  | false =>
    rw [Registry.unregister, if_neg (by rw [hname]; decide)]
    cases halias : r.aliases.get? name with
    | none => simp [Keyed.contains, halias, contains_of_not_alias halias, hname]
    | some target => simp [Keyed.contains, halias, h.contains_of_alias halias]

theorem maker?_unregister_of_shadowed (h : r.Shadowed name) :
    (r.unregister name).2.maker? name = r.maker? name := by
  obtain ⟨hname, target, htarget, halias⟩ := h
  have halias' : (r.unregister name).2.aliases.get? name = some target := by
    simp [get?_aliases_unregister_of_registered hname, halias, htarget]
  rw [maker?_of_alias halias, maker?_of_alias halias', get?_makers_unregister, if_neg htarget]

theorem maker?_unregister (h : ¬ r.Shadowed name) : (r.unregister name).2.maker? name = none := by
  have halias : (r.unregister name).2.aliases.get? name = none := by
    cases hname : r.isRegistered name with
    | true =>
      rw [get?_aliases_unregister_of_registered hname, Option.filter_eq_none_iff]
      intro target htarget hne
      exact h ⟨hname, target, by simpa using hne, htarget⟩
    | false => rw [get?_aliases_unregister_of_not_registered hname, if_pos rfl]
  rw [maker?_of_not_alias halias, get?_makers_unregister, if_pos rfl]

/-- **What unregistering leaves of a name.** It answers whether there was anything under the name.
Afterwards there is nothing, unless a filter and an alias of another filter were both there: then
the alias stays, and the name makes what it made before. -/
theorem unregister_forgets {start : Registry} (hstart : start = empty ∨ start = builtin)
    (edits : List Edit) (name : String) :
    ((start.editAll edits).unregister name).1 = (start.editAll edits).contains name ∧
      (¬ (start.editAll edits).Shadowed name →
        ((start.editAll edits).unregister name).2.contains name = false ∧
          ∀ ps, ((start.editAll edits).unregister name).2.create name ps = none) ∧
      ((start.editAll edits).Shadowed name →
        ((start.editAll edits).unregister name).2.contains name = true ∧
          ∀ ps, ((start.editAll edits).unregister name).2.create name ps =
            (start.editAll edits).create name ps) := by
  have hanchored := anchored_editAll hstart edits
  refine ⟨hanchored.unregister_fst name, fun hnot => ?_, fun hshadowed => ?_⟩
  · have hgone := maker?_unregister hnot
    refine ⟨?_, fun ps => ?_⟩
    · rw [contains, hgone]
      rfl
    · rw [create, hgone, Option.map_none]
  · have hstays := maker?_unregister_of_shadowed hshadowed
    obtain ⟨hname, -⟩ := hshadowed
    refine ⟨?_, fun ps => ?_⟩
    · rw [contains, hstays]
      exact (hanchored.contains_iff name).mpr (.inl (isRegistered_iff.mp hname))
    · rw [create, hstays, create]

/-- A name that is a filter's and an alias of the same filter is gone at once. -/
theorem unregister_forgets_itself :
    (builtin.editAll [.addAlias "invert" "invert"]).contains "invert" = true ∧
      ((builtin.editAll [.addAlias "invert" "invert"]).unregister "invert").1 = true ∧
      ((builtin.editAll [.addAlias "invert" "invert"]).unregister "invert").2.contains "invert" =
        false := by
  have hnot : ¬ (builtin.editAll [.addAlias "invert" "invert"]).Shadowed "invert" := by
    rintro ⟨-, target, htarget, halias⟩
    rw [show (builtin.editAll [.addAlias "invert" "invert"]).aliases.get? "invert" =
      some "invert" by decide] at halias
    exact htarget (Option.some.inj halias).symm
  have hcontains : (builtin.editAll [.addAlias "invert" "invert"]).contains "invert" = true := by
    decide
  obtain ⟨hanswer, hgone, -⟩ := unregister_forgets (.inr rfl) [.addAlias "invert" "invert"] "invert"
  exact ⟨hcontains, hanswer.trans hcontains, (hgone hnot).1⟩

/-- **An alias over a filter stays.** After `invert` was made an alias of `contrast` and then
unregistered, it still makes `contrast`. -/
theorem contains_of_unregister_shadowed :
    ((builtin.editAll [.addAlias "invert" "contrast"]).unregister "invert").1 = true ∧
      ((builtin.editAll [.addAlias "invert" "contrast"]).unregister "invert").2.contains "invert" =
        true ∧
      (((builtin.editAll [.addAlias "invert" "contrast"]).unregister "invert").2.create "invert"
        Keyed.empty).map
        Filter.name = some "contrast" := by
  decide

end AltRender.Registry

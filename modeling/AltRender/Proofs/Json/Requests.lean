import AltRender.Json.Record
import AltRender.Proofs.Json.ReadBack
import AltRender.Registry

/-!
# `Proofs/Json/Requests` — requests that survive being written as JSON

The requests of an annotation are written as a list of objects and read from it again. Names, keys
and texts come back whatever they hold, and so does the order of the arguments. A number comes back
if it is finite and its text is read as the same number; one that is not finite is written as
`null`, and `null` is no number. So the requests come back if all their numbers are finite, and
otherwise nothing does (`listOfText?_specs`). Digits in a row are enough to make a number that is
not finite.

Whether the text of a finite number is read back is what JSON readers are trusted with, and the one
thing asked for here (`Spec.ReadsBack`), of the numbers of this annotation alone.
-/

set_option autoImplicit false

namespace AltRender

open AltRender.Decimal AltRender.Json

/-! ## Values -/

namespace Value

/-- The value is no number, or a finite one. -/
def isFinite : Value → Bool
  | .number x => (Exact.ofFloat x).isFinite
  | _ => true

/-- The value is no finite number, or one whose text is read as the same number. -/
def ReadsBack : Value → Prop
  | .number x => (Exact.ofFloat x).isFinite = true → (Json.ofFloat x).float? = some x
  | _ => True

instance : DecidablePred ReadsBack
  | .number x =>
    inferInstanceAs
      (Decidable ((Exact.ofFloat x).isFinite = true → (Json.ofFloat x).float? = some x))
  | .text _ => .isTrue trivial
  | .flag _ => .isTrue trivial

/-- **A value comes back if it is finite,** and otherwise nothing does. -/
theorem ofJson?_toJson {v : Value} (h : v.ReadsBack) :
    ofJson? v.toJson = if v.isFinite then some v else none := by
  cases v with
  | number x =>
    have hread : ofJson? (Value.number x).toJson = (Json.ofFloat x).float?.map .number := rfl
    rw [hread, isFinite]
    cases hfinite : (Exact.ofFloat x).isFinite with
    | true => rw [h hfinite, Option.map_some, if_pos rfl]
    | false =>
      have hnull : Json.ofFloat x = .null := by simp [Json.ofFloat, hfinite]
      rw [hnull, if_neg Bool.false_ne_true]
      rfl
  | text s => rfl
  | flag b => rfl

theorem isWritten_payload {v : Value} (h : v.ReadsBack) : IsWritten v.payload := by
  cases v with
  | number x =>
    rw [payload]
    cases hfinite : (Exact.ofFloat x).isFinite with
    | true =>
      have hread := h hfinite
      rw [Json.ofFloat] at hread ⊢
      simp only [hfinite, if_true] at hread ⊢
      obtain ⟨n, hn, -⟩ := Option.bind_eq_some_iff.mp hread
      exact .number hn
    | false =>
      rw [Json.ofFloat]
      simp only [hfinite, Bool.false_eq_true, if_false]
      exact .null
  | text s => exact .text s
  | flag b => exact .flag b

theorem isWritten_toJson {v : Value} (h : v.ReadsBack) : IsWritten v.toJson :=
  .object (List.forall_mem_cons.mpr ⟨.text _, List.forall_mem_singleton.mpr (isWritten_payload h)⟩)

end Value

/-! ## Requests -/

/-- Every number among the arguments is finite. -/
def Spec.IsFinite (s : Spec) : Prop :=
  ∀ argument ∈ s.parameters.entries, argument.2.isFinite = true

/-- Every finite number among the arguments is read from its text. -/
def Spec.ReadsBack (s : Spec) : Prop :=
  ∀ argument ∈ s.parameters.entries, argument.2.ReadsBack

instance : DecidablePred Spec.IsFinite := fun s =>
  inferInstanceAs (Decidable (∀ argument ∈ s.parameters.entries, argument.2.isFinite = true))

instance : DecidablePred Spec.ReadsBack := fun s =>
  inferInstanceAs (Decidable (∀ argument ∈ s.parameters.entries, argument.2.ReadsBack))

/-- What can be read of no element cannot be read of all. -/
theorem mapM_eq_none {α β : Type} {f : α → Option β} {xs : List α} {x : α} (hx : x ∈ xs)
    (h : f x = none) : xs.mapM f = none := by
  induction xs with
  | nil => exact absurd hx List.not_mem_nil
  | cons y ys ih =>
    rw [List.mapM_cons]
    rcases List.mem_cons.mp hx with rfl | hx
    · rw [h]
      rfl
    · rw [ih hx]
      cases f y <;> rfl

theorem Parameters.ofJson?_toJson {ps : Parameters} (hreads : ∀ e ∈ ps.entries, e.2.ReadsBack)
    (hfinite : ∀ e ∈ ps.entries, e.2.isFinite = true) : Parameters.ofJson? ps.toJson = some ps := by
  have hentries : (ps.entries.map fun e => (e.1, e.2.toJson)).mapM
      (fun f => (Value.ofJson? f.2).map fun v => (f.1, v)) = some ps.entries := by
    refine Directive.mapM_map_of_forall fun e he => ?_
    rw [Value.ofJson?_toJson (hreads e he), if_pos (hfinite e he)]
    rfl
  rw [toJson, ofJson?, hentries, Option.map_some, Keyed.ofList_entries]

theorem Parameters.ofJson?_toJson_eq_none {ps : Parameters} {e : String × Value}
    (he : e ∈ ps.entries) (hreads : e.2.ReadsBack) (hfinite : e.2.isFinite = false) :
    Parameters.ofJson? ps.toJson = none := by
  have hentries : (ps.entries.map fun e => (e.1, e.2.toJson)).mapM
      (fun f => (Value.ofJson? f.2).map fun v => (f.1, v)) = none := by
    refine mapM_eq_none (List.mem_map_of_mem he) ?_
    dsimp only
    rw [Value.ofJson?_toJson hreads, hfinite]
    rfl
  rw [toJson, ofJson?, hentries, Option.map_none]

namespace Spec

theorem ofJson?_eq (s : Spec) :
    ofJson? s.toJson = (Parameters.ofJson? s.parameters.toJson).map fun ps => ⟨s.name, ps⟩ := by
  have hparts : ofJson? s.toJson = (Parameters.ofJson? s.parameters.toJson).bind fun ps =>
    some ⟨s.name, ps⟩ := rfl
  rw [hparts]
  cases Parameters.ofJson? s.parameters.toJson <;> rfl

theorem isWritten_toJson {s : Spec} (h : s.ReadsBack) : IsWritten s.toJson := by
  have hparameters : IsWritten s.parameters.toJson := by
    refine .object fun field hfield => ?_
    obtain ⟨e, he, rfl⟩ := List.mem_map.mp hfield
    exact Value.isWritten_toJson (h e he)
  exact .object (List.forall_mem_cons.mpr ⟨.text _, List.forall_mem_singleton.mpr hparameters⟩)

theorem listOfText?_eq {specs : List Spec} (h : ∀ s ∈ specs, s.ReadsBack) :
    listOfText? (compactText (listToJson specs)) = (specs.map toJson).mapM ofJson? := by
  have hwritten : IsWritten (listToJson specs) := by
    refine .list fun item hitem => ?_
    obtain ⟨s, hs, rfl⟩ := List.mem_map.mp hitem
    exact isWritten_toJson (h s hs)
  rw [listOfText?, read?_compactText hwritten]
  rfl

/-- **The requests of an annotation come back from their JSON just if all their numbers are
finite,** and then as they were, so that every registry makes chains with the same signatures from
them. -/
theorem listOfText?_specs {text : String} (h : ∀ s ∈ Directive.specs text, s.ReadsBack) :
    ((∃ specs, listOfText? (compactText (listToJson (Directive.specs text))) = some specs) ↔
        ∀ s ∈ Directive.specs text, s.IsFinite) ∧
      ∀ specs, listOfText? (compactText (listToJson (Directive.specs text))) = some specs →
        specs = Directive.specs text ∧
          ∀ r : Registry, (r.resolve specs).signatures =
            (r.resolve (Directive.specs text)).signatures := by
  rw [listOfText?_eq h]
  generalize Directive.specs text = specs at h ⊢
  have hback : (∀ s ∈ specs, s.IsFinite) → (specs.map toJson).mapM ofJson? = some specs := by
    intro hfinite
    refine Directive.mapM_map_of_forall fun s hs => ?_
    rw [ofJson?_eq, Parameters.ofJson?_toJson (h s hs) (hfinite s hs)]
    rfl
  -- A number that is not finite is written as null, which no parameter reads as.
  have hfinite : ∀ read, (specs.map toJson).mapM ofJson? = some read → ∀ s ∈ specs, s.IsFinite := by
    intro read hread s hs e he
    by_contra hinfinite
    have hnone : ofJson? s.toJson = none := by
      rw [ofJson?_eq, Parameters.ofJson?_toJson_eq_none he (h s hs e he) (by simpa using hinfinite),
        Option.map_none]
    rw [mapM_eq_none (List.mem_map_of_mem hs) hnone] at hread
    exact absurd hread (by simp)
  refine ⟨⟨fun ⟨read, hread⟩ => hfinite read hread, fun hall => ⟨specs, hback hall⟩⟩,
    fun read hread => ?_⟩
  obtain rfl := Option.some.inj ((hback (hfinite read hread)).symm.trans hread)
  exact ⟨rfl, fun r => rfl⟩

/-- Quotes, a control character and a fraction come back; a number of four hundred digits does
not. -/
theorem listOfText?_specs_digits :
    let plain := "@tone(a=-1.5, b=\"\\\"\u0001é, \\n)\", c)"
    let endless := "@tone(a=" ++ String.ofList (List.replicate 400 '9') ++ ")"
    listOfText? (compactText (listToJson (Directive.specs plain))) = some (Directive.specs plain) ∧
      ∀ specs, listOfText? (compactText (listToJson (Directive.specs endless))) ≠ some specs := by
  intro plain endless
  have hspecs : Directive.specs endless = (Directive.attemptsFrom false 0
      ("@tone(a=".toList ++ List.replicate 400 '9' ++ ")".toList)).filterMap
      Directive.Attempt.spec? := by
    simp only [Directive.specs, Directive.attempts, endless, String.toList_append,
      String.toList_ofList]
  have hreads : ∀ s ∈ Directive.specs endless, s.ReadsBack := by
    rw [hspecs]
    decide +kernel
  have hinfinite : ¬ ∀ s ∈ Directive.specs endless, s.IsFinite := by
    rw [hspecs]
    decide +kernel
  obtain ⟨⟨-, hfinite⟩, hback⟩ := @listOfText?_specs plain (by decide +kernel)
  obtain ⟨⟨hread, -⟩, -⟩ := listOfText?_specs hreads
  refine ⟨?_, fun specs h => hinfinite (hread ⟨specs, h⟩)⟩
  obtain ⟨specs, h⟩ := hfinite (by decide +kernel)
  rw [h, (hback specs h).1]

/-- Reading a number rounds twice, which not every number stands. -/
example : (Json.ofFloat 31.245270191439438).float? ≠ some 31.245270191439438 := by decide +kernel

end Spec

end AltRender

import AltRender.Directive.Argument

/-!
# `Proofs/Directive/Sealed` — text that the three readers pass over

The search for the end of a list, the cut at delimiters and the reading of a quoted text step
through one automaton, so one fact about a text says how all of them take it: which of its
characters stand outside quotes, and whether it leaves a quote open. A text is *sealed* against some
characters if it has none of them outside quotes and closes every quote it opens. A sealed text is
passed over whole, whatever stands behind it (`closing_of_isSealed`, `pieces_intercalate`).

Quoting brings any text into this form. A backslash is put before each quote and each backslash,
which are all that the automaton looks at between quotes (`inside_escape`), and reading the quoted
text takes them off again (`unquote_quote`). The arguments that are written out for a directive are
texts of this kind and words, both of which are sealed against commas, equals signs and parentheses.
-/

set_option autoImplicit false

namespace AltRender.Directive

open AltRender.Text

/-! ## The automaton over a text -/

namespace Quoting

/-- The state after a text. -/
def after (state : Quoting) (cs : List Char) : Quoting :=
  cs.foldl step state

/-- The characters of a text that are read outside quotes, those included that open them. -/
def bare : Quoting → List Char → List Char
  | _, [] => []
  | state, c :: cs =>
    if state = .outside then c :: bare (state.step c) cs else bare (state.step c) cs

@[simp] theorem after_nil (state : Quoting) : state.after [] = state := rfl

@[simp] theorem after_cons (state : Quoting) (c : Char) (cs : List Char) :
    state.after (c :: cs) = (state.step c).after cs := rfl

@[simp] theorem after_append (state : Quoting) (as bs : List Char) :
    state.after (as ++ bs) = (state.after as).after bs :=
  List.foldl_append

theorem bare_append (state : Quoting) (as bs : List Char) :
    bare state (as ++ bs) = bare state as ++ bare (state.after as) bs := by
  induction as generalizing state with
  | nil => rfl
  | cons c as ih =>
    simp only [List.cons_append, bare, ih, after_cons]
    split <;> rfl

theorem forall_mem_bare_cons {P : Char → Prop} {state : Quoting} {c : Char} {cs : List Char}
    (h : ∀ d ∈ bare state (c :: cs), P d) :
    (state = .outside → P c) ∧ ∀ d ∈ bare (state.step c) cs, P d := by
  rw [bare] at h
  split at h
  · obtain ⟨hc, hrest⟩ := List.forall_mem_cons.mp h
    exact ⟨fun _ => hc, hrest⟩
  · rename_i hstate
    exact ⟨fun hout => absurd hout hstate, h⟩

theorem step_outside {c : Char} (h : c ≠ '"') : Quoting.outside.step c = .outside := if_neg h

end Quoting

/-! ## Sealed texts -/

/-- The text closes the quotes it opens and has none of the characters outside them. -/
structure IsSealed (avoided cs : List Char) : Prop where
  ends : Quoting.outside.after cs = .outside
  avoids : ∀ c ∈ Quoting.bare .outside cs, c ∉ avoided

namespace IsSealed

variable {avoided : List Char}

theorem nil : IsSealed avoided [] :=
  ⟨rfl, List.forall_mem_nil _⟩

theorem append {as bs : List Char} (ha : IsSealed avoided as) (hb : IsSealed avoided bs) :
    IsSealed avoided (as ++ bs) := by
  refine ⟨?_, ?_⟩
  · rw [Quoting.after_append, ha.ends, hb.ends]
  · rw [Quoting.bare_append, ha.ends]
    exact List.forall_mem_append.mpr ⟨ha.avoids, hb.avoids⟩

theorem mono {avoided' : List Char} (hsub : avoided' ⊆ avoided) {cs : List Char}
    (h : IsSealed avoided cs) : IsSealed avoided' cs :=
  ⟨h.ends, fun c hc hmem => h.avoids c hc (hsub hmem)⟩

theorem cons {c : Char} (hquote : c ≠ '"') (hc : c ∉ avoided) {cs : List Char}
    (h : IsSealed avoided cs) : IsSealed avoided (c :: cs) := by
  refine ⟨?_, ?_⟩
  · rw [Quoting.after_cons, Quoting.step_outside hquote, h.ends]
  · rw [Quoting.bare, if_pos rfl, Quoting.step_outside hquote]
    exact List.forall_mem_cons.mpr ⟨hc, h.avoids⟩

/-- A text without quotes is sealed against what it does not have. -/
theorem of_forall {cs : List Char} (h : ∀ c ∈ cs, c ≠ '"' ∧ c ∉ avoided) : IsSealed avoided cs := by
  induction cs with
  | nil => exact nil
  | cons c cs ih =>
    obtain ⟨⟨hquote, hc⟩, hrest⟩ := List.forall_mem_cons.mp h
    exact cons hquote hc (ih hrest)

end IsSealed

/-! ## The readers on sealed texts -/

theorem closingFrom_of_bare {list quote offset : Nat} {state : Quoting} {cs : List Char}
    (hends : state.after cs = .outside) (havoids : ∀ c ∈ Quoting.bare state cs, c ∉ ['(', ')'])
    (rest : List Char) :
    closingFrom list state quote offset (cs ++ ')' :: rest) = .ok ⟨cs, rest⟩ := by
  induction cs generalizing state quote offset with
  | nil =>
    obtain rfl : state = .outside := hends
    rfl
  | cons c cs ih =>
    obtain ⟨hplain, hrest⟩ := Quoting.forall_mem_bare_cons havoids
    have hclose : ¬ (state = .outside ∧ c = ')') := fun ⟨hstate, hc⟩ => hplain hstate (by simp [hc])
    have hopen : ¬ (state = .outside ∧ c = '(') := fun ⟨hstate, hc⟩ => hplain hstate (by simp [hc])
    rw [List.cons_append, closingFrom, if_neg hclose, if_neg hopen]
    simp only [ih hends hrest]

/-- **A list that is sealed against parentheses ends at the one behind it.** -/
theorem closing_of_isSealed {cs : List Char} (h : IsSealed ['(', ')'] cs) (list : Nat)
    (rest : List Char) : closing list (cs ++ ')' :: rest) = .ok ⟨cs, rest⟩ :=
  closingFrom_of_bare h.ends h.avoids rest

section Cut

variable {delimiter : Char}

theorem piecesFrom_of_bare {state : Quoting} {cs : List Char}
    (h : ∀ c ∈ Quoting.bare state cs, c ∉ [delimiter]) : piecesFrom delimiter state cs = [cs] := by
  induction cs generalizing state with
  | nil => rfl
  | cons c cs ih =>
    obtain ⟨hplain, hrest⟩ := Quoting.forall_mem_bare_cons h
    have hcut : ¬ (state = .outside ∧ c = delimiter) :=
      fun ⟨hstate, hc⟩ => hplain hstate (by simp [hc])
    rw [piecesFrom, if_neg hcut, ih hrest, addToFirst]

theorem piecesFrom_append {state : Quoting} {cs : List Char} (hends : state.after cs = .outside)
    (h : ∀ c ∈ Quoting.bare state cs, c ∉ [delimiter]) (rest : List Char) :
    piecesFrom delimiter state (cs ++ delimiter :: rest) =
      cs :: piecesFrom delimiter .outside rest := by
  induction cs generalizing state with
  | nil =>
    obtain rfl : state = .outside := hends
    exact if_pos ⟨rfl, rfl⟩
  | cons c cs ih =>
    obtain ⟨hplain, hrest⟩ := Quoting.forall_mem_bare_cons h
    have hcut : ¬ (state = .outside ∧ c = delimiter) :=
      fun ⟨hstate, hc⟩ => hplain hstate (by simp [hc])
    rw [List.cons_append, piecesFrom, if_neg hcut, ih hends hrest, addToFirst]

/-- A sealed text is one piece. -/
theorem pieces_of_isSealed {cs : List Char} (h : IsSealed [delimiter] cs) :
    pieces delimiter cs = [cs] :=
  piecesFrom_of_bare h.avoids

/-- A sealed text before the delimiter is the first piece. -/
theorem pieces_append {cs : List Char} (h : IsSealed [delimiter] cs) (rest : List Char) :
    pieces delimiter (cs ++ delimiter :: rest) = cs :: pieces delimiter rest :=
  piecesFrom_append h.ends h.avoids rest

/-- **Joined with the delimiter and cut again, sealed texts come back.** -/
theorem pieces_intercalate {ps : List (List Char)} (hne : ps ≠ [])
    (h : ∀ p ∈ ps, IsSealed [delimiter] p) : pieces delimiter (intercalate delimiter ps) = ps := by
  induction ps with
  | nil => exact absurd rfl hne
  | cons p rest ih =>
    obtain ⟨hp, hrest⟩ := List.forall_mem_cons.mp h
    cases rest with
    | nil => exact pieces_of_isSealed hp
    | cons next rest => rw [intercalate, pieces_append hp, ih (List.cons_ne_nil _ _) hrest]

end Cut

theorem IsSealed.intercalate {avoided : List Char} {delimiter : Char} (hquote : delimiter ≠ '"')
    (hd : delimiter ∉ avoided) {ps : List (List Char)} (h : ∀ p ∈ ps, IsSealed avoided p) :
    IsSealed avoided (intercalate delimiter ps) := by
  induction ps with
  | nil => exact .nil
  | cons p rest ih =>
    obtain ⟨hp, hrest⟩ := List.forall_mem_cons.mp h
    cases rest with
    | nil => exact hp
    | cons next rest => exact hp.append (.cons hquote hd (ih hrest))

/-! ## Quoted texts -/

/-- The text with a backslash before each quote and each backslash. -/
def escape (cs : List Char) : List Char :=
  cs.flatMap fun c => if c = '"' ∨ c = '\\' then ['\\', c] else [c]

/-- The text between quotes. -/
def quote (cs : List Char) : List Char :=
  '"' :: (escape cs ++ ['"'])

/-- A character that stays inside quotes as it is. -/
theorem Quoting.step_inside {c : Char} (h : ¬ (c = '"' ∨ c = '\\')) :
    Quoting.inside.step c = .inside := by
  rw [not_or] at h
  rw [Quoting.step, if_neg h.2, if_neg h.1]

/-- An escaped text is read inside quotes from its start to its end. -/
theorem inside_escape (cs : List Char) :
    Quoting.inside.after (escape cs) = .inside ∧ Quoting.bare .inside (escape cs) = [] := by
  induction cs with
  | nil => exact ⟨rfl, rfl⟩
  | cons c cs ih =>
    rw [escape, List.flatMap_cons, Quoting.after_append, Quoting.bare_append]
    by_cases h : c = '"' ∨ c = '\\'
    · rw [if_pos h]
      exact ih
    · rw [if_neg h, Quoting.after_cons, Quoting.step_inside h]
      exact ih

/-- **A quoted text is sealed** against everything but the quote that opens it. -/
theorem isSealed_quote {avoided : List Char} (h : '"' ∉ avoided) (cs : List Char) :
    IsSealed avoided (quote cs) := by
  have hstep : Quoting.outside.step '"' = .inside := rfl
  obtain ⟨hafter, hbare⟩ := inside_escape cs
  refine ⟨?_, ?_⟩
  · rw [quote, Quoting.after_cons, hstep, Quoting.after_append, hafter]
    rfl
  · rw [quote, Quoting.bare, if_pos rfl, hstep, Quoting.bare_append, hbare, hafter]
    exact List.forall_mem_singleton.mpr h

theorem unquoteRest_escape (cs : List Char) : unquoteRest (escape cs ++ ['"']) = some cs := by
  induction cs with
  | nil => rfl
  | cons c cs ih =>
    rw [escape, List.flatMap_cons, List.append_assoc]
    by_cases h : c = '"' ∨ c = '\\'
    · have hescapable : isEscapable c = true := by rcases h with rfl | rfl <;> rfl
      rw [if_pos h]
      show unquoteRest ('\\' :: c :: (escape cs ++ ['"'])) = some (c :: cs)
      rw [unquoteRest, ih, Option.map_some, if_pos hescapable]
    · rw [if_neg h]
      rw [not_or] at h
      show unquoteRest (c :: (escape cs ++ ['"'])) = some (c :: cs)
      rw [unquoteRest]
      · rw [ih, Option.map_some]
      all_goals simp [h.1, h.2]

/-- **Quoting keeps the text.** -/
theorem unquote_quote (cs : List Char) : unquote (quote cs) = some cs :=
  unquoteRest_escape cs

end AltRender.Directive

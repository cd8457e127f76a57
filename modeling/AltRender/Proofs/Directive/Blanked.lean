import AltRender.Proofs.Directive.Written

/-!
# `Proofs/Directive/Blanked` — a blank in place of an `@`

The search for the end of an argument list does not tell an `@` from a blank. Neither do the readers
of its entries, if the `@` stands between quotes and no blank is behind it (`IsBlanked`): the
entries are cut at the same places, and an entry with the blank fails in the same way as the one
with the `@`, or neither fails (`failAlike_readArguments`). Only the texts that a problem cites may
show the blank, so problems are compared by their outlines.

Outside quotes the two would not be alike: a blank at the end of an entry is cut off and an `@` is
not. Where an entry stands with respect to the quotes is followed by the automaton, and a closed
list leaves no quote open, so that an opening parenthesis in it, and the name of a directive before
it, must stand inside.
-/

set_option autoImplicit false

namespace AltRender.Directive

open AltRender.Text

/-! ## What two problems have in common -/

/-- The problem without the texts it cites: its kind, and its offset if it has one. -/
def Problem.outline : Problem → Problem
  | .badKey _ => .badKey ""
  | .badValue _ _ => .badValue "" ""
  | problem => problem

def Diagnostic.outline (d : Diagnostic) : Diagnostic :=
  { d with problem := d.problem.outline }

def Attempt.outline (a : Attempt) : Attempt :=
  { a with outcome := a.outcome.mapError Problem.outline }

theorem Attempt.spec?_outline (a : Attempt) : a.outline.spec? = a.spec? := by
  obtain ⟨offset, name, outcome⟩ := a
  cases outcome <;> rfl

theorem Attempt.diagnostic?_outline (a : Attempt) :
    a.outline.diagnostic? = a.diagnostic?.map Diagnostic.outline := by
  obtain ⟨offset, name, outcome⟩ := a
  cases outcome <;> rfl

theorem specs_of_outline {as bs : List Attempt}
    (h : as.map Attempt.outline = bs.map Attempt.outline) :
    as.filterMap Attempt.spec? = bs.filterMap Attempt.spec? := by
  have hfilter := congrArg (List.filterMap Attempt.spec?) h
  simpa [List.filterMap_map, Function.comp_def, Attempt.spec?_outline] using hfilter

theorem diagnostics_of_outline {as bs : List Attempt}
    (h : as.map Attempt.outline = bs.map Attempt.outline) :
    (as.filterMap Attempt.diagnostic?).map Diagnostic.outline =
      (bs.filterMap Attempt.diagnostic?).map Diagnostic.outline := by
  have hfilter := congrArg (List.filterMap Attempt.diagnostic?) h
  simpa [List.filterMap_map, Function.comp_def, Attempt.diagnostic?_outline, List.map_filterMap]
    using hfilter

/-- Two results fail in the same way, or neither fails. -/
def FailAlike {α : Type} (r r' : Except Problem α) : Prop :=
  (r.map fun _ => ()).mapError Problem.outline = (r'.map fun _ => ()).mapError Problem.outline

namespace FailAlike

variable {α β : Type}

theorem of_ok (a b : α) : FailAlike (.ok a : Except Problem α) (.ok b) := rfl

theorem of_error {p p' : Problem} (h : p.outline = p'.outline) :
    FailAlike (.error p : Except Problem α) (.error p') :=
  congrArg Except.error h

theorem exists_error {p : Problem} {r : Except Problem α} (h : FailAlike (.error p) r) :
    ∃ p', r = .error p' ∧ p'.outline = p.outline := by
  cases r with
  | ok a => exact absurd h (by simp [FailAlike, Except.map, Except.mapError])
  | error p' => exact ⟨p', rfl, (Except.error.inj h).symm⟩

theorem map {r r' : Except Problem α} (h : FailAlike r r') (f : α → β) :
    FailAlike (r.map f) (r'.map f) := by
  cases r <;> cases r' <;> exact h

/-- One entry of many read otherwise: the others fail as they did. -/
theorem mapM_append {f : α → Except Problem β} {x x' : α} (h : FailAlike (f x) (f x'))
    (before after : List α) :
    FailAlike ((before ++ x :: after).mapM f) ((before ++ x' :: after).mapM f) := by
  -- By the items in front, which both lists share: either one of them fails, and alike, or the two
  -- differ in what the rest gives.
  induction before with
  | nil =>
    simp only [List.nil_append, List.mapM_cons]
    cases hx : f x with
    | error p =>
      rw [hx] at h
      obtain ⟨p', hx', houtline⟩ := h.exists_error
      rw [hx']
      exact of_error houtline.symm
    | ok y =>
      cases hx' : f x' with
      | error p =>
        rw [hx, hx'] at h
        exact absurd h (by simp [FailAlike, Except.map, Except.mapError])
      | ok y' =>
        cases List.mapM f after with
        | error p => exact of_error rfl
        | ok ys => exact of_ok _ _
  | cons z before ih =>
    simp only [List.cons_append, List.mapM_cons]
    cases f z with
    | error p => exact of_error rfl
    | ok y =>
      cases hall : List.mapM f (before ++ x :: after) with
      | error p =>
        rw [hall] at ih
        obtain ⟨p', hall', houtline⟩ := ih.exists_error
        rw [hall']
        exact of_error houtline.symm
      | ok ys =>
        cases hall' : List.mapM f (before ++ x' :: after) with
        | error p =>
          rw [hall, hall'] at ih
          exact absurd ih (by simp [FailAlike, Except.map, Except.mapError])
        | ok ys' => exact of_ok _ _

end FailAlike

/-! ## The search for the end of a list -/

/-- The automaton takes an `@` as it takes a blank. -/
theorem Quoting.step_blank (state : Quoting) : state.step ' ' = state.step '@' := by
  cases state <;> rfl

theorem closingFrom_of_error {list quote offset : Nat} {state : Quoting} {xs ys : List Char}
    {problem : Problem}
    (h : closingFrom list state quote offset (xs ++ '@' :: ys) = .error problem) :
    closingFrom list state quote offset (xs ++ ' ' :: ys) = .error problem := by
  -- By the characters in front, which both texts share: a problem met among them stays the problem.
  induction xs generalizing state quote offset with
  | nil =>
    simp only [List.nil_append, closingFrom, Quoting.step_blank] at h ⊢
    cases hrest : closingFrom list (state.step '@') quote (offset + 1) ys with
    | ok closed => simp [hrest, show '@'.utf8Size = 1 from rfl] at h
    | error problem' =>
      simpa [hrest, show '@'.utf8Size = 1 from rfl, show ' '.utf8Size = 1 from rfl] using h
  | cons c xs ih =>
    simp only [List.cons_append, closingFrom] at h ⊢
    split at h
    · exact absurd h (by simp)
    · rename_i hclose
      rw [if_neg hclose]
      split at h
      · rename_i hopen
        rw [if_pos hopen, h]
      · rename_i hopen
        rw [if_neg hopen]
        split at h
        · exact absurd h (by simp)
        · rename_i problem' hrest
          obtain rfl := Except.error.inj h
          rw [ih hrest]

theorem bare_of_closingFrom {list quote offset : Nat} {state : Quoting} {cs : List Char}
    {closed : Closed} (h : closingFrom list state quote offset cs = .ok closed) :
    state.after closed.inside = .outside ∧
    ∀ c ∈ Quoting.bare state closed.inside, c ∉ ['(', ')'] := by
  -- Along the scan, in any state: the last character of the list is met outside of quotes, and a
  -- parenthesis before it would have ended or spoilt it.
  induction cs generalizing state quote offset closed with
  | nil => exact absurd h (by simp [closingFrom])
  | cons c rest ih =>
    simp only [closingFrom] at h
    split at h
    · rename_i hclose
      obtain rfl := Except.ok.inj h
      exact ⟨hclose.1, by simp [Quoting.bare]⟩
    · rename_i hclose
      split at h
      · exact absurd h (by simp)
      · rename_i hopen
        split at h
        · rename_i closed' hrest
          obtain rfl := Except.ok.inj h
          obtain ⟨hends, hbare⟩ := ih hrest
          refine ⟨hends, ?_⟩
          rw [Quoting.bare]
          split
          · rename_i hstate
            refine List.forall_mem_cons.mpr ⟨?_, hbare⟩
            intro hmem
            rcases List.mem_cons.mp hmem with hc | hmem
            · exact hopen ⟨hstate, hc⟩
            · exact hclose ⟨hstate, List.mem_singleton.mp hmem⟩
          · exact hbare
        · exact absurd h (by simp)

/-- What stands in a closed list is sealed against parentheses. -/
theorem isSealed_of_closing {list : Nat} {cs : List Char} {closed : Closed}
    (h : closing list cs = .ok closed) : IsSealed ['(', ')'] closed.inside :=
  ⟨(bare_of_closingFrom h).1, (bare_of_closingFrom h).2⟩

/-! ## A blank between quotes -/

/-- One text is another with a blank in place of an `@` that stands between quotes and has no blank
behind it. -/
def IsBlanked (cs cs' : List Char) : Prop :=
  ∃ xs ys, cs = xs ++ '@' :: ys ∧ cs' = xs ++ ' ' :: ys ∧ Quoting.outside.after xs ≠ .outside ∧
    ∃ c ∈ ys.head?, isBlank c = false

/-- Between quotes there is a quote. -/
theorem quote_mem_of_after {xs : List Char} (h : Quoting.outside.after xs ≠ .outside) :
    '"' ∈ xs := by
  induction xs with
  | nil => exact absurd rfl h
  | cons c xs ih =>
    by_cases hc : c = '"'
    · exact hc ▸ List.mem_cons_self
    · rw [Quoting.after_cons, Quoting.step_outside hc] at h
      exact List.mem_cons_of_mem c (ih h)

theorem Quoting.bare_blank (state : Quoting) (xs ys : List Char) {avoided : List Char}
    (havoided : ' ' ∉ avoided) (h : ∀ c ∈ bare state (xs ++ '@' :: ys), c ∉ avoided) :
    ∀ c ∈ bare state (xs ++ ' ' :: ys), c ∉ avoided := by
  rw [bare_append] at h ⊢
  obtain ⟨hfront, hback⟩ := List.forall_mem_append.mp h
  refine List.forall_mem_append.mpr ⟨hfront, ?_⟩
  obtain ⟨-, hrest⟩ := forall_mem_bare_cons hback
  rw [bare, step_blank]
  split
  · exact List.forall_mem_cons.mpr ⟨havoided, hrest⟩
  · exact hrest

theorem IsSealed.blanked {avoided xs ys : List Char} (h : IsSealed avoided (xs ++ '@' :: ys))
    (havoided : ' ' ∉ avoided) : IsSealed avoided (xs ++ ' ' :: ys) := by
  refine ⟨?_, Quoting.bare_blank _ xs ys havoided h.avoids⟩
  have hends := h.ends
  rw [Quoting.after_append, Quoting.after_cons] at hends ⊢
  rw [Quoting.step_blank, hends]

/-- An opening parenthesis in a closed list stands between quotes, and so does the name before
it. -/
theorem after_ne_outside_of_isSealed {xs name ys : List Char}
    (h : IsSealed ['(', ')'] (xs ++ '@' :: (name ++ '(' :: ys)))
    (hname : ∀ c ∈ name, isNameChar c = true) : Quoting.outside.after xs ≠ .outside := by
  intro hout
  have havoids := h.avoids
  have hsealed : IsSealed [] ('@' :: name) := by
    refine IsSealed.of_forall fun c hc => ⟨?_, List.not_mem_nil⟩
    rintro rfl
    rcases List.mem_cons.mp hc with hc | hc
    · exact absurd hc (by decide)
    · exact absurd (hname _ hc) (by decide)
  have hstate := hsealed.ends
  rw [← List.cons_append, Quoting.bare_append, Quoting.bare_append, hout, hstate, Quoting.bare,
    if_pos rfl] at havoids
  exact havoids '(' (by simp [Quoting.bare]) (by simp)

theorem Quoting.step_inside_of_ne {state : Quoting} (h : state ≠ .outside) :
    state.step '@' = .inside := by
  cases state with
  | outside => exact absurd rfl h
  | inside => rfl
  | escaped => rfl

/-- A cut leaves the two characters in pieces that are alike otherwise. -/
theorem piecesFrom_blank {delimiter : Char} (hd : delimiter ≠ '"') {state : Quoting}
    {xs ys : List Char} (hquoted : state.after xs ≠ .outside)
    (hnext : ∃ c ∈ ys.head?, isBlank c = false) :
    ∃ before us vs after,
      piecesFrom delimiter state (xs ++ '@' :: ys) = before ++ (us ++ '@' :: vs) :: after ∧
      piecesFrom delimiter state (xs ++ ' ' :: ys) = before ++ (us ++ ' ' :: vs) :: after ∧
      (if before = [] then state else .outside).after us ≠ .outside ∧
      ∃ c ∈ vs.head?, isBlank c = false := by
  induction xs generalizing state with
  | nil =>
    have hstate : state ≠ .outside := hquoted
    obtain ⟨c, hc, hblank⟩ := hnext
    obtain ⟨rest, rfl⟩ := List.head?_eq_some_iff.mp hc
    -- What stands behind the `@` goes on in its piece, since it is read between quotes.
    cases hrest : piecesFrom delimiter (Quoting.inside.step c) rest with
    | nil => exact absurd hrest (piecesFrom_ne_nil _ _ _)
    | cons piece after =>
      refine ⟨[], [], c :: piece, after, ?_, ?_, hstate, c, rfl, hblank⟩
      · simp [piecesFrom, hstate, Quoting.step_inside_of_ne hstate, hrest, addToFirst]
      · simp [piecesFrom, hstate, Quoting.step_blank, Quoting.step_inside_of_ne hstate, hrest,
          addToFirst]
  | cons x xs ih =>
    rw [Quoting.after_cons] at hquoted
    by_cases hcut : state = .outside ∧ x = delimiter
    · obtain ⟨rfl, rfl⟩ := hcut
      rw [Quoting.step_outside hd] at hquoted
      obtain ⟨before, us, vs, after, hat, hblank, hstate, hhead⟩ := ih hquoted
      refine ⟨[] :: before, us, vs, after, ?_, ?_, ?_, hhead⟩
      · simp [piecesFrom, hat]
      · simp [piecesFrom, hblank]
      · simpa using hstate
    · obtain ⟨before, us, vs, after, hat, hblank, hstate, hhead⟩ := ih hquoted
      cases before with
      | nil =>
        refine ⟨[], x :: us, vs, after, ?_, ?_, hstate, hhead⟩
        · simp [piecesFrom, hcut, hat, addToFirst]
        · simp [piecesFrom, hcut, hblank, addToFirst]
      | cons piece before =>
        refine ⟨(x :: piece) :: before, us, vs, after, ?_, ?_, by simpa using hstate, hhead⟩
        · simp [piecesFrom, hcut, hat, addToFirst]
        · simp [piecesFrom, hcut, hblank, addToFirst]

/-- **One piece of a cut is blanked,** and the others are the same. -/
theorem IsBlanked.pieces {cs cs' : List Char} (h : IsBlanked cs cs') (delimiter : Char)
    (hd : delimiter ≠ '"') :
    ∃ before piece piece' after, Directive.pieces delimiter cs = before ++ piece :: after ∧
      Directive.pieces delimiter cs' = before ++ piece' :: after ∧ IsBlanked piece piece' := by
  obtain ⟨xs, ys, rfl, rfl, hquoted, hnext⟩ := h
  obtain ⟨before, us, vs, after, hat, hblank, hstate, hhead⟩ := piecesFrom_blank hd hquoted hnext
  exact ⟨before, _, _, after, hat, hblank, us, vs, rfl, rfl, by simpa using hstate, hhead⟩

theorem after_dropWhile_isBlank (xs : List Char) :
    Quoting.outside.after (xs.dropWhile isBlank) = Quoting.outside.after xs := by
  induction xs with
  | nil => rfl
  | cons x xs ih =>
    cases hx : isBlank x with
    | false => rw [List.dropWhile_cons_of_neg (by simp [hx])]
    | true =>
      have hquote : x ≠ '"' := by
        rintro rfl
        exact absurd hx (by decide)
      rw [List.dropWhile_cons_of_pos hx, ih, Quoting.after_cons, Quoting.step_outside hquote]

theorem trimEnd_append_cons (xs : List Char) {c : Char} (hc : isBlank c = false) (ys : List Char) :
    trimEnd (xs ++ c :: ys) = xs ++ c :: trimEnd ys := by
  simp only [trimEnd, List.reverse_append, List.reverse_cons, List.append_assoc,
    List.dropWhile_append]
  split
  · rename_i hempty
    simp [List.isEmpty_iff.mp hempty, hc]
  · simp

/-- What is cut off at the ends is cut off from both. -/
theorem IsBlanked.trim {cs cs' : List Char} (h : IsBlanked cs cs') :
    IsBlanked (Text.trim cs) (Text.trim cs') := by
  obtain ⟨xs, ys, rfl, rfl, hquoted, c, hc, hblank⟩ := h
  obtain ⟨rest, rfl⟩ := List.head?_eq_some_iff.mp hc
  have hstart :
    ∀ d : Char, trimStart (xs ++ d :: c :: rest) = xs.dropWhile isBlank ++ d :: c :: rest := by
    intro d
    have hnot : ¬ (∀ x ∈ xs, isBlank x = true) := fun hall =>
      absurd (hall '"' (quote_mem_of_after hquoted)) (by decide)
    rw [trimStart, List.dropWhile_append]
    split
    · rename_i hempty
      exact absurd (by simpa using hempty) hnot
    · rfl
  have hend : ∀ d : Char, trimEnd (xs.dropWhile isBlank ++ d :: c :: rest) =
      xs.dropWhile isBlank ++ d :: c :: trimEnd rest := by
    intro d
    have hsplit := trimEnd_append_cons (xs.dropWhile isBlank ++ [d]) hblank rest
    simpa using hsplit
  refine ⟨xs.dropWhile isBlank, c :: trimEnd rest, ?_, ?_, ?_, c, rfl, hblank⟩
  · rw [Text.trim, hstart, hend]
  · rw [Text.trim, hstart, hend]
  · rwa [after_dropWhile_isBlank]

/-! ## Reading entries -/

/-- Whether a quoted text ends where it should does not hang on what stands in it. -/
theorem isSome_unquoteRest_blank (xs ys : List Char) :
    (unquoteRest (xs ++ '@' :: ys)).isSome = (unquoteRest (xs ++ ' ' :: ys)).isSome := by
  induction xs using unquoteRest.induct with
  | case1 => simp [unquoteRest]
  | case2 rest hempty => simp [unquoteRest]
  | case3 rest hempty => simp [unquoteRest]
  | case4 => simp [unquoteRest]
  | case5 c rest ih => simp [unquoteRest, ih]
  | case6 c rest hquote hlast hescape ih =>
    have hslash : c ≠ '\\' := by
      rintro rfl
      cases rest with
      | nil => exact hlast rfl rfl
      | cons d rest => exact hescape d rest rfl rfl
    simp [unquoteRest, hslash, ih]

/-- A text with a quote in it is a value only if it starts with one. -/
theorem readValue_of_quote {cs : List Char} (h : '"' ∈ cs) :
    readValue cs = if cs.head? = some '"' then (unquote cs).map fun s =>
      .text (String.ofList s) else none := by
  have hword : cs.all isWordChar = false := List.all_eq_false.mpr ⟨'"', h, by decide⟩
  rw [readValue, Decimal.read?_eq_none_of_mem (by decide) (by decide) h, hword, Bool.and_false]
  rfl

theorem isSome_readValue_of_isBlanked {cs cs' : List Char} (h : IsBlanked cs cs') :
    (readValue cs).isSome = (readValue cs').isSome := by
  obtain ⟨xs, ys, rfl, rfl, hquoted, -⟩ := h
  have hmem := quote_mem_of_after hquoted
  rw [readValue_of_quote (List.mem_append_left _ hmem),
    readValue_of_quote (List.mem_append_left _ hmem)]
  obtain ⟨x, xs, rfl⟩ := List.exists_cons_of_ne_nil (List.ne_nil_of_mem hmem)
  by_cases hx : x = '"'
  · subst hx
    simp [unquote, isSome_unquoteRest_blank]
  · simp [hx]

theorem isKey_of_isBlanked {cs cs' : List Char} (h : IsBlanked cs cs') :
    isKey cs = false ∧ isKey cs' = false := by
  obtain ⟨xs, ys, rfl, rfl, hquoted, -⟩ := h
  have hkey : ∀ d : Char, isKey (xs ++ d :: ys) = false := by
    intro d
    rw [isKey, Bool.and_eq_false_iff, List.all_eq_false]
    exact .inr ⟨'"', List.mem_append_left _ (quote_mem_of_after hquoted), by decide⟩
  exact ⟨hkey '@', hkey ' '⟩

/-- **An entry with the blank fails as the one with the `@`,** or neither does. -/
theorem failAlike_readEntry {entry entry' : List Char} (h : IsBlanked entry entry') :
    FailAlike (readEntry entry) (readEntry entry') := by
  obtain ⟨before, piece, piece', after, hpieces, hpieces', hpiece⟩ := h.pieces '=' (by decide)
  obtain ⟨hkey, hkey'⟩ := isKey_of_isBlanked hpiece.trim
  unfold readEntry
  rw [hpieces, hpieces']
  simp only [List.map_append, List.map_cons]
  cases before with
  | nil =>
    cases after with
    | nil =>
      simp only [List.map_nil, List.nil_append, hkey, hkey', Bool.false_eq_true, if_false]
      exact FailAlike.of_error rfl
    | cons value after =>
      cases after with
      | nil =>
        simp only [List.map_nil, List.map_cons, List.nil_append, hkey, hkey', Bool.false_eq_true,
          if_false]
        exact FailAlike.of_error rfl
      | cons _ _ => exact FailAlike.of_error rfl
  | cons key before =>
    cases before with
    | nil =>
      cases after with
      | nil =>
        cases hk : isKey (Text.trim key) with
        | false =>
          simp only [List.map_nil, List.map_cons, List.nil_append, List.cons_append, hk,
            Bool.false_eq_true, if_false]
          exact FailAlike.of_error rfl
        | true =>
          -- The key is the same, and the values are read alike.
          have hvalue := isSome_readValue_of_isBlanked hpiece.trim
          simp only [List.nil_append, List.cons_append, List.map_cons, List.map_nil, hk, if_true]
          cases hv : readValue (Text.trim piece) <;> cases hv' : readValue (Text.trim piece')
          · exact FailAlike.of_error rfl
          · simp [hv, hv'] at hvalue
          · simp [hv, hv'] at hvalue
          · exact FailAlike.of_ok _ _
      | cons _ _ => exact FailAlike.of_error rfl
    | cons _ before =>
      cases before with
      | nil => exact FailAlike.of_error rfl
      | cons _ _ => exact FailAlike.of_error rfl

theorem IsBlanked.ne_nil {cs cs' : List Char} (h : IsBlanked cs cs') : cs ≠ [] ∧ cs' ≠ [] := by
  obtain ⟨xs, ys, rfl, rfl, -, -⟩ := h
  simp

theorem failAlike_readArguments {cs cs' : List Char} (h : IsBlanked cs cs') :
    FailAlike (readArguments cs) (readArguments cs') := by
  obtain ⟨before, piece, piece', after, hpieces, hpieces', hpiece⟩ := h.pieces ',' (by decide)
  obtain ⟨hne, hne'⟩ := hpiece.trim.ne_nil
  have hentries : ∀ {p : List Char}, Text.trim p ≠ [] →
    ((before ++ p :: after).map Text.trim).filter (fun e => !e.isEmpty) =
      (before.map Text.trim).filter (fun e => !e.isEmpty) ++
        Text.trim p :: (after.map Text.trim).filter (fun e => !e.isEmpty) := by
    intro p hp
    rw [List.map_append, List.map_cons, List.filter_append,
      List.filter_cons_of_pos (by simpa using hp)]
  rw [readArguments, readArguments, entries, entries, hpieces, hpieces', hentries hne,
    hentries hne']
  exact ((failAlike_readEntry hpiece.trim).mapM_append _ _).map _

end AltRender.Directive

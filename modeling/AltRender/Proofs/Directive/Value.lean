import AltRender.Proofs.Decimal.Numeral
import AltRender.Proofs.Directive.Written

/-!
# `Proofs/Directive/Value` — values, and the cuts between them

A value has one of three forms (`IsValue`). It is a numeral; or a text in quotes, which is made of
glyphs, each a character or a backslash with the character it takes with it; or a word, which is
neither of these and has no character that would end it. The reader of values accepts just these and
gives what they mean (`readValue_eq_some_iff`).

Arguments are cut apart before they are read, at the delimiters outside quotes. A text is cut in one
way only (`isCut_iff`), so that it can be spoken of *the* pieces of a list. Whether a delimiter is
outside quotes depends on all that comes before it, and that is why a cut is described from the
left: its first piece ends outside quotes, and the rest is cut on its own.
-/

set_option autoImplicit false

namespace AltRender.Directive

open AltRender.Text AltRender.Decimal

/-! ## Values -/

/-- What stands between quotes, taken one by one: a character, or a backslash with the one it takes
with it. -/
inductive Glyph where
  | plain (c : Char) (hquote : c ≠ '"') (hbackslash : c ≠ '\\')
  | escaped (c : Char)

namespace Glyph

def written : Glyph → List Char
  | plain c _ _ => [c]
  | escaped c => ['\\', c]

/-- The backslash counts only before what needs none. -/
def meaning : Glyph → List Char
  | plain c _ _ => [c]
  | escaped c => if c ∈ ['"', '(', ')', '\\'] then [c] else ['\\', c]

end Glyph

/-- **The forms of a value,** with what each of them means. -/
inductive IsValue : List Char → Value → Prop
  | number {cs : List Char} {x : Float} (h : IsNumeral cs x) : IsValue cs (.number x)
  | quoted (glyphs : List Glyph) :
      IsValue ('"' :: (glyphs.flatMap Glyph.written ++ ['"']))
        (.text (String.ofList (glyphs.flatMap Glyph.meaning)))
  | word {cs : List Char} (hne : cs ≠ []) (hchars : ∀ c ∈ cs, isWordChar c = true)
      (hnumber : ∀ x, ¬ IsNumeral cs x) : IsValue cs (.text (String.ofList cs))

theorem isEscapable_iff {c : Char} : isEscapable c = true ↔ c ∈ ['"', '(', ')', '\\'] := by
  simp [isEscapable, or_assoc]

theorem Glyph.meaning_escaped (c : Char) (rest : List Char) :
    (if isEscapable c then c :: rest else '\\' :: c :: rest) = (escaped c).meaning ++ rest := by
  rw [meaning]
  by_cases hc : c ∈ ['"', '(', ')', '\\']
  · rw [if_pos hc, if_pos (isEscapable_iff.mpr hc)]
    rfl
  · rw [if_neg hc, if_neg (mt isEscapable_iff.mp hc)]
    rfl

/-- Glyphs are read up to the quote behind them, and have a meaning if the text ends there. -/
theorem unquoteRest_glyphs_append (glyphs : List Glyph) (rest : List Char) :
    unquoteRest (glyphs.flatMap Glyph.written ++ '"' :: rest) =
      if rest = [] then some (glyphs.flatMap Glyph.meaning) else none := by
  induction glyphs with
  | nil => simp [unquoteRest]
  | cons g glyphs ih =>
    rw [List.flatMap_cons, List.flatMap_cons, List.append_assoc]
    cases g with
    | plain c hquote hbackslash =>
      show unquoteRest (c :: (glyphs.flatMap Glyph.written ++ '"' :: rest)) = _
      rw [unquoteRest]
      · rw [ih]
        split <;> rfl
      all_goals simp [hquote, hbackslash]
    | escaped c =>
      show unquoteRest ('\\' :: c :: (glyphs.flatMap Glyph.written ++ '"' :: rest)) = _
      rw [unquoteRest, ih]
      by_cases hrest : rest = []
      · rw [if_pos hrest, if_pos hrest, Option.map_some, Glyph.meaning_escaped]
      · rw [if_neg hrest, if_neg hrest, Option.map_none]

theorem unquoteRest_glyphs (glyphs : List Glyph) :
    unquoteRest (glyphs.flatMap Glyph.written ++ ['"']) = some (glyphs.flatMap Glyph.meaning) := by
  rw [unquoteRest_glyphs_append, if_pos rfl]

theorem exists_glyphs {cs meaning : List Char} (h : unquoteRest cs = some meaning) :
    ∃ glyphs : List Glyph, cs = glyphs.flatMap Glyph.written ++ ['"'] ∧
      meaning = glyphs.flatMap Glyph.meaning := by
  induction cs using unquoteRest.induct generalizing meaning with
  | case1 => exact absurd h (by simp [unquoteRest])
  | case2 rest hrest =>
    obtain rfl := List.isEmpty_iff.mp hrest
    obtain rfl := Option.some.inj h
    exact ⟨[], rfl, rfl⟩
  | case3 rest hrest =>
    rw [unquoteRest, if_neg hrest] at h
    exact absurd h (by simp)
  | case4 => exact absurd h (by simp [unquoteRest])
  | case5 c rest ih =>
    rw [unquoteRest] at h
    obtain ⟨meaning', hrest, rfl⟩ := Option.map_eq_some_iff.mp h
    obtain ⟨glyphs, hwritten, hmeaning⟩ := ih hrest
    refine ⟨.escaped c :: glyphs, by rw [hwritten]; rfl, ?_⟩
    rw [List.flatMap_cons, ← hmeaning, Glyph.meaning_escaped]
  | case6 c rest hquote hend hpair ih =>
    -- The character is no backslash, whether something follows it or not.
    have hbackslash : c ≠ '\\' := by
      intro hc
      cases rest with
      | nil => exact hend hc rfl
      | cons d rest => exact hpair d rest hc rfl
    rw [unquoteRest] at h
    · obtain ⟨meaning', hrest, rfl⟩ := Option.map_eq_some_iff.mp h
      obtain ⟨glyphs, hwritten, hmeaning⟩ := ih hrest
      exact ⟨.plain c hquote hbackslash :: glyphs, by rw [hwritten]; rfl, by rw [hmeaning]; rfl⟩
    all_goals assumption

/-- **A text is read as quoted if it is glyphs between quotes,** and means what they mean. -/
theorem unquote_eq_some_iff {cs meaning : List Char} : unquote cs = some meaning ↔
    ∃ glyphs : List Glyph, cs = '"' :: (glyphs.flatMap Glyph.written ++ ['"']) ∧
      meaning = glyphs.flatMap Glyph.meaning := by
  constructor
  · intro h
    unfold unquote at h
    split at h
    · rename_i rest
      obtain ⟨glyphs, rfl, hmeaning⟩ := exists_glyphs h
      exact ⟨glyphs, rfl, hmeaning⟩
    · exact absurd h (by simp)
  · rintro ⟨glyphs, rfl, rfl⟩
    exact unquoteRest_glyphs glyphs

/-- **A text is read as a value if it has one of the forms,** and as the value that this form
means. -/
theorem readValue_eq_some_iff {cs : List Char} {v : Value} :
    readValue cs = some v ↔ IsValue cs v := by
  constructor
  · intro h
    unfold readValue at h
    -- Numbers are tried before words, so that a word is one no number reads as; a quoted text
    -- begins with a character that neither has.
    cases hread : read? cs with
    | some x =>
      rw [hread] at h
      obtain rfl := Option.some.inj h
      exact .number (read?_eq_some_iff.mp hread)
    | none =>
      have hnumber : ∀ x, ¬ IsNumeral cs x := fun x hx => by
        rw [read?_eq_some_iff.mpr hx] at hread
        exact absurd hread (by simp)
      rw [hread] at h
      simp only at h
      split at h
      · obtain ⟨meaning, hunquote, rfl⟩ := Option.map_eq_some_iff.mp h
        obtain ⟨glyphs, rfl, rfl⟩ := unquote_eq_some_iff.mp hunquote
        exact .quoted glyphs
      · split at h
        · rename_i hword
          obtain rfl := Option.some.inj h
          obtain ⟨hne, hchars⟩ := Bool.and_eq_true_iff.mp hword
          exact .word (by simpa using hne) (List.all_eq_true.mp hchars) hnumber
        · exact absurd h (by simp)
  · intro h
    cases h with
    | number hx => rw [readValue, read?_eq_some_iff.mpr hx]
    | quoted glyphs =>
      have hhead : ('"' :: (glyphs.flatMap Glyph.written ++ ['"'])).head? = some '"' := rfl
      rw [readValue, read?_eq_none_of_mem (by decide) (by decide) (List.mem_of_mem_head? hhead)]
      simp only [hhead, if_true, unquote_eq_some_iff.mpr ⟨glyphs, rfl, rfl⟩, Option.map_some]
    | word hne hchars hnumber =>
      have hread : read? cs = none := Option.eq_none_iff_forall_ne_some.mpr fun x hx =>
        hnumber x (read?_eq_some_iff.mp hx)
      have htext : (String.ofList cs).toList = cs := String.toList_ofList
      have hreads :=
        (isValueText_word
          (s := String.ofList cs) (by rwa [htext]) (by rwa [htext]) (by rwa [htext])).reads
      rwa [htext] at hreads

/-! ## Cuts -/

/-- **The pieces of a text between the delimiters outside quotes.** Only the last of them may leave
a quote open. -/
inductive IsCut (delimiter : Char) : List Char → List (List Char) → Prop
  | last {cs : List Char} (h : delimiter ∉ Quoting.bare .outside cs) : IsCut delimiter cs [cs]
  | next {piece rest : List Char} {pieces : List (List Char)}
      (h : delimiter ∉ Quoting.bare .outside piece) (hends : Quoting.outside.after piece = .outside)
      (hrest : IsCut delimiter rest pieces) :
      IsCut delimiter (piece ++ delimiter :: rest) (piece :: pieces)

/-- How often the character stands outside quotes. -/
def bareCount (c : Char) (cs : List Char) : Nat :=
  (Quoting.bare .outside cs).count c

section Cut

variable {delimiter : Char}

/-- The first delimiter outside quotes. -/
theorem exists_front {state : Quoting} {cs : List Char} (h : delimiter ∈ Quoting.bare state cs) :
    ∃ front rest, cs = front ++ delimiter :: rest ∧ delimiter ∉ Quoting.bare state front ∧
      state.after front = .outside := by
  induction cs generalizing state with
  | nil => exact absurd h List.not_mem_nil
  | cons c cs ih =>
    by_cases hcut : state = .outside ∧ c = delimiter
    · obtain ⟨rfl, rfl⟩ := hcut
      exact ⟨[], cs, rfl, List.not_mem_nil, rfl⟩
    · have hbare : ∀ ds, delimiter ∈ Quoting.bare state (c :: ds) →
        delimiter ∈ Quoting.bare (state.step c) ds := by
        intro ds hmem
        rw [Quoting.bare] at hmem
        split at hmem
        · rename_i hstate
          exact (List.mem_cons.mp hmem).resolve_left fun hc => hcut ⟨hstate, hc.symm⟩
        · exact hmem
      obtain ⟨front, rest, rfl, hfront, hends⟩ := ih (hbare cs h)
      exact ⟨c :: front, rest, rfl, fun hmem => hfront (hbare front hmem), hends⟩

theorem not_mem_singleton_of_bare {cs : List Char} (h : delimiter ∉ Quoting.bare .outside cs) :
    ∀ c ∈ Quoting.bare .outside cs, c ∉ [delimiter] := by
  rintro c hc hmem
  obtain rfl := List.mem_singleton.mp hmem
  exact h hc

theorem IsCut.eq_pieces {cs : List Char} {ps : List (List Char)} (h : IsCut delimiter cs ps) :
    ps = pieces delimiter cs := by
  induction h with
  | last h => exact (piecesFrom_of_bare (not_mem_singleton_of_bare h)).symm
  | next h hends hrest ih => rw [pieces_append ⟨hends, not_mem_singleton_of_bare h⟩, ← ih]

theorem isCut_pieces (delimiter : Char) (cs : List Char) :
    IsCut delimiter cs (pieces delimiter cs) := by
  by_cases hmem : delimiter ∈ Quoting.bare .outside cs
  · obtain ⟨front, rest, hcs, hfront, hends⟩ := exists_front hmem
    have hshorter : rest.length < cs.length := by
      rw [hcs, List.length_append, List.length_cons]
      omega
    rw [hcs, pieces_append ⟨hends, not_mem_singleton_of_bare hfront⟩]
    exact .next hfront hends (isCut_pieces delimiter rest)
  · have hlast : pieces delimiter cs = [cs] := piecesFrom_of_bare (not_mem_singleton_of_bare hmem)
    rw [hlast]
    exact .last hmem
termination_by cs.length

/-- **A text is cut in one way only,** and so by the reader. -/
theorem isCut_iff {cs : List Char} {ps : List (List Char)} :
    IsCut delimiter cs ps ↔ ps = pieces delimiter cs :=
  ⟨IsCut.eq_pieces, fun h => h ▸ isCut_pieces delimiter cs⟩

/-- There is one piece more than there are delimiters outside quotes. -/
theorem IsCut.length (hquote : delimiter ≠ '"') {cs : List Char} {ps : List (List Char)}
    (h : IsCut delimiter cs ps) : ps.length = bareCount delimiter cs + 1 := by
  induction h with
  | last h => rw [bareCount, List.count_eq_zero.mpr h, List.length_singleton]
  | next h hends hrest ih =>
    rw [List.length_cons, ih, bareCount, bareCount, Quoting.bare_append, hends, List.count_append,
      List.count_eq_zero.mpr h, Quoting.bare, if_pos rfl, List.count_cons_self,
      Quoting.step_outside hquote, Nat.zero_add]

end Cut

/-! ## Blanks -/

theorem isTrimmed_trim (cs : List Char) : IsTrimmed (trim cs) := by
  have hstart : ∀ {ds : List Char}, ∀ c ∈ (ds.dropWhile isBlank).head?, isBlank c = false := by
    intro ds c hc
    have hhead := List.head?_dropWhile_not isBlank ds
    rw [Option.mem_def.mp hc] at hhead
    exact hhead
  refine ⟨fun c hc => ?_, fun c hc => ?_⟩
  · -- What is cut at the end leaves the first character where it is.
    have hprefix := trimEnd_append (trimStart cs)
    have hhead : (trimStart cs).head? = some c := by
      rw [← hprefix, List.head?_append, show (trimEnd (trimStart cs)).head? = some c from hc]
      rfl
    exact hstart c hhead
  · rw [trim, trimEnd, List.getLast?_reverse] at hc
    exact hstart c hc

theorem trim_trim (cs : List Char) : trim (trim cs) = trim cs :=
  trim_of_isTrimmed (isTrimmed_trim cs)

end AltRender.Directive

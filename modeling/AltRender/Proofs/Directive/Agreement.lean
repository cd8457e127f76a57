import AltRender.Proofs.Directive.Blanked
import AltRender.Proofs.Directive.Bytes
import AltRender.Proofs.Directive.Grammar

/-!
# `Proofs/Directive/Agreement` — what is quoted to one reader is quoted to the others

A list is searched for its end, cut at commas, its entries are cut at equals signs, and what begins
with a quote is read as a quoted text. A closed list closes the quotes that it opens
(`exists_closed`). The cuts keep this, since a delimiter counts only where no quote is open
(`IsCut.balanced`), and so does the trimming, since a blank opens and closes none (`after_trim`). So
a quoted text comes to its last reader with its closing quote in it (`exists_closing_quote`), and
the only reason left to refuse it is text behind that quote (`quotes_agree`).

All four readers use one automaton, but they start it anew for each piece. That is what makes it a
question whether they agree: a piece that begins inside a quote would be read inside out. It does
not come to that because every cut is made outside quotes, and a text without open quotes stays one
when it is cut there.
-/

set_option autoImplicit false

namespace AltRender.Directive

open AltRender.Text

/-! ## Quotes that are closed -/

/-- Blanks open no quote and close none. -/
theorem after_blanks {blanks : List Char} (h : ∀ c ∈ blanks, isBlank c = true) (state : Quoting) :
    state.after blanks = .outside ↔ state = .outside := by
  induction blanks generalizing state with
  | nil => exact Iff.rfl
  | cons c blanks ih =>
    obtain ⟨hc, hrest⟩ := List.forall_mem_cons.mp h
    have hquote : c ≠ '"' := by
      rintro rfl
      exact absurd hc (by decide)
    have hstep : state.step c = .outside ↔ state = .outside := by
      cases state with
      | outside => simp [Quoting.step_outside hquote]
      | inside =>
        rw [Quoting.step]
        split <;> simp
      | escaped => simp [Quoting.step]
    rw [Quoting.after_cons, ih hrest, hstep]

/-- A text with all its quotes closed is one without the blanks around it as well. -/
theorem after_trim {cs : List Char} (h : Quoting.outside.after cs = .outside) :
    Quoting.outside.after (trim cs) = .outside := by
  obtain ⟨front, back, hfront, hback, hcs⟩ := exists_trim_append cs
  rw [← hcs, Quoting.after_append, Quoting.after_append, (after_blanks hfront .outside).mpr rfl]
    at h
  exact (after_blanks hback _).mp h

/-- **The pieces of a text that closes its quotes** close theirs, and have the delimiter in quotes
only. -/
theorem IsCut.balanced {delimiter : Char} (hquote : delimiter ≠ '"') {cs : List Char}
    {ps : List (List Char)} (hcut : IsCut delimiter cs ps)
    (h : Quoting.outside.after cs = .outside) :
    ∀ p ∈ ps, delimiter ∉ Quoting.bare .outside p ∧ Quoting.outside.after p = .outside := by
  induction hcut with
  | last hbare => exact List.forall_mem_singleton.mpr ⟨hbare, h⟩
  | next hbare hends hrest ih =>
    rw [Quoting.after_append, hends, Quoting.after_cons, Quoting.step_outside hquote] at h
    exact List.forall_mem_cons.mpr ⟨⟨hbare, hends⟩, ih h⟩

/-- **Where a quote is open that is closed later, its text is glyphs** and then the closing
quote. -/
theorem exists_closing_quote (cs : List Char) (h : Quoting.inside.after cs = .outside) :
    ∃ (glyphs : List Glyph) (rest : List Char), cs =
      glyphs.flatMap Glyph.written ++ '"' :: rest := by
  match cs with
  | [] => exact absurd h (by decide)
  | c :: rest =>
    by_cases hquote : c = '"'
    · exact ⟨[], rest, by rw [hquote]; rfl⟩
    · by_cases hbackslash : c = '\\'
      · subst hbackslash
        match rest with
        | [] => exact absurd h (by decide)
        | d :: rest =>
          obtain ⟨glyphs, behind, hrest⟩ := exists_closing_quote rest h
          exact ⟨.escaped d :: glyphs, behind, by rw [hrest]; rfl⟩
      · rw [Quoting.after_cons, Quoting.step_inside (not_or.mpr ⟨hquote, hbackslash⟩)] at h
        obtain ⟨glyphs, behind, hrest⟩ := exists_closing_quote rest h
        exact ⟨.plain c hquote hbackslash :: glyphs, behind, by rw [hrest]; rfl⟩

/-- What begins with a quote and closes it is refused only if there is text behind the closing
quote. -/
theorem unquote_of_after {cs : List Char} (hhead : cs.head? = some '"')
    (h : Quoting.outside.after cs = .outside) :
    ∃ (glyphs : List Glyph) (rest : List Char), cs =
      '"' :: (glyphs.flatMap Glyph.written ++ '"' :: rest) ∧
      unquote cs = if rest = [] then some (glyphs.flatMap Glyph.meaning) else none := by
  obtain ⟨inside, rfl⟩ := List.head?_eq_some_iff.mp hhead
  obtain ⟨glyphs, rest, rfl⟩ := exists_closing_quote inside h
  exact ⟨glyphs, rest, rfl, unquoteRest_glyphs_append glyphs rest⟩

/-! ## The search by bytes that succeeds -/

namespace Bytes

/-- A parenthesis that closes a list is found from wherever the list is said to start. -/
theorem closingFrom_start {bytes : List UInt8} {start : Nat} {quoted : Bool} {quote i close : Nat}
    (h : closingFrom bytes start quoted quote i = .ok (.ok close)) (start' : Nat) :
    closingFrom bytes start' quoted quote i = .ok (.ok close) ∧
    byteAt bytes close = .ok ')'.toUInt8 := by
  -- Down the branches of the scan, each taken alike from either start: only the problems that are
  -- reported know where the list began.
  fun_induction closingFrom bytes start quoted quote i with
  | case1 quoted quote i hi ihSkip ihQuote ihNext =>
    obtain ⟨b, hbyte, h⟩ := exists_of_bind_ok h
    rw [closingFrom_of_byteAt hbyte]
    split at h
    · rename_i hb
      rw [if_pos hb]
      exact ihSkip h
    · rename_i hb
      rw [if_neg hb]
      split at h
      · rename_i hb
        rw [if_pos hb]
        exact ihQuote h
      · rename_i hb
        rw [if_neg hb]
        split at h
        · rename_i hb
          obtain rfl := Except.ok.inj (Except.ok.inj h)
          rw [if_pos hb]
          exact ⟨rfl, hb.1 ▸ hbyte⟩
        · rename_i hb
          rw [if_neg hb]
          split at h
          · exact absurd h (by simp [pure, Except.pure])
          · rename_i hb
            rw [if_neg hb]
            exact ihNext h
  | case2 quote i hi => exact absurd h (by simp [pure, Except.pure])
  | case3 quoted quote i hi hquoted =>
    obtain ⟨n, -, h⟩ := exists_of_bind_ok h
    exact absurd h (by simp [pure, Except.pure])

/-- **A closed list** that starts between two characters is a text that closes its quotes. -/
theorem exists_closed {xs ys : List Char} {close : Nat}
    (h : closing (utf8 (xs ++ ys)) (byteLength xs) = .ok (.ok close)) :
    ∃ inside beyond, ys = inside ++ ')' :: beyond ∧ close = byteLength (xs ++ inside) ∧
      Quoting.outside.after inside = .outside := by
  have hclosed := (closingFrom_start h 1).1
  rw [closingFrom_utf8 Nat.one_pos (byteLength xs) fun hquoted => absurd hquoted (by decide)]
    at hclosed
  cases hsearch :
    Directive.closingFrom (1 - 1) (stateOf false) (byteLength xs) (byteLength xs) ys with
  | error problem =>
    rw [hsearch] at hclosed
    exact absurd (Except.ok.inj hclosed) (by simp [closedAt, Except.map])
  | ok closed =>
    rw [hsearch] at hclosed
    obtain rfl := Except.ok.inj (Except.ok.inj hclosed)
    exact ⟨closed.inside, closed.beyond, (closingFrom_append hsearch).symm,
      (byteLength_append _ _).symm,
      (bare_of_closingFrom hsearch).1⟩

end Bytes

/-! ## The readers together -/

/-- Pieces that joined with the delimiter give the text back, have it in quotes only, and close
their quotes. -/
structure IsSplit (delimiter : Char) (text : String) (pieces : List String) : Prop where
  joined : intercalate delimiter (pieces.map String.toList) = text.toList
  bare : ∀ p ∈ pieces, delimiter ∉ Quoting.bare .outside p.toList
  balanced : ∀ p ∈ pieces, Quoting.outside.after p.toList = .outside

theorem isSplit_pieces {text : String} (h : Quoting.outside.after text.toList = .outside)
    {delimiter : Char} (hquote : delimiter ≠ '"') :
    IsSplit delimiter text ((pieces delimiter text.toList).map String.ofList) := by
  have hbalanced := (isCut_pieces delimiter text.toList).balanced hquote h
  refine ⟨?_, ?_, ?_⟩
  · simp [intercalate_pieces]
  · intro _ hmem
    obtain ⟨p, hp, rfl⟩ := List.mem_map.mp hmem
    rw [String.toList_ofList]
    exact (hbalanced p hp).1
  · intro _ hmem
    obtain ⟨p, hp, rfl⟩ := List.mem_map.mp hmem
    rw [String.toList_ofList]
    exact (hbalanced p hp).2

/-- **What one reader takes as quoted, the others do.** Of a list that is found closed, the bytes
between are a text if it starts between two characters. That text closes its quotes, and so do its
pieces between commas and theirs between equals signs; a piece that begins with a quote has the
closing quote in it and means what stands between the two, with the escapes resolved, unless text
stands behind. -/
theorem quotes_agree {text : String} {start close : Nat}
    (h : Bytes.closing (utf8 text.toList) start = .ok (.ok close)) :
    byteAt (utf8 text.toList) close = .ok ')'.toUInt8 ∧
      (isBoundary (utf8 text.toList) start = true ↔ ∃ args, slice text start close = .ok args) ∧
      ∀ args, slice text start close = .ok args → Quoting.outside.after args.toList = .outside ∧
        ∃ ps, Bytes.pieces args ',' = .ok ps ∧ IsSplit ',' args ps ∧
          ∀ p ∈ ps, ∃ qs, Bytes.pieces (Bytes.trimmed p) '=' = .ok qs ∧
            IsSplit '=' (Bytes.trimmed p) qs ∧
            ∀ q ∈ qs, (Bytes.trimmed q).toList.head? = some '"' →
            ∃ (glyphs : List Glyph) (rest : List Char),
              (Bytes.trimmed q).toList = '"' :: (glyphs.flatMap Glyph.written ++ '"' :: rest) ∧
                unquote (Bytes.trimmed q).toList =
                  if rest = [] then some (glyphs.flatMap Glyph.meaning) else none := by
  -- All of the rest is about the characters of the slice, so the slice is first shown to be the
  -- inside of the list as the reader of characters has it.
  have hsliced : isBoundary (utf8 text.toList) start = true → ∃ inside,
      slice text start close = .ok (String.ofList inside) ∧
      Quoting.outside.after inside = .outside := by
    intro hstart
    obtain ⟨xs, ys, htext, rfl⟩ := isBoundary_iff.mp hstart
    rw [htext] at h
    obtain ⟨inside, beyond, rfl, rfl, hbalanced⟩ := Bytes.exists_closed h
    exact ⟨inside, slice_append (by rw [htext, List.append_assoc]), hbalanced⟩
  refine ⟨(Bytes.closingFrom_start h start).2,
    ⟨fun hstart => ?_, fun ⟨args, hargs⟩ => isBoundary_of_slice hargs⟩, ?_⟩
  · obtain ⟨inside, hslice, -⟩ := hsliced hstart
    exact ⟨_, hslice⟩
  · intro args hargs
    obtain ⟨inside, hslice, hbalanced⟩ := hsliced (isBoundary_of_slice hargs)
    obtain rfl := Except.ok.inj (hargs.symm.trans hslice)
    rw [← String.toList_ofList (l := inside)] at hbalanced
    refine ⟨hbalanced, _, Bytes.pieces_utf8 _ (by decide) (by decide),
      isSplit_pieces hbalanced (by decide), ?_⟩
    intro p hp
    have hentry : Quoting.outside.after (Bytes.trimmed p).toList = .outside := by
      rw [Bytes.trimmed, String.toList_ofList]
      exact after_trim ((isSplit_pieces hbalanced (by decide)).balanced p hp)
    refine ⟨_, Bytes.pieces_utf8 _ (by decide) (by decide), isSplit_pieces hentry (by decide), ?_⟩
    intro q hq hhead
    have hvalue : Quoting.outside.after (Bytes.trimmed q).toList = .outside := by
      rw [Bytes.trimmed, String.toList_ofList]
      exact after_trim ((isSplit_pieces hentry (by decide)).balanced q hq)
    exact unquote_of_after hhead hvalue

/-- A character of two bytes behind a backslash, a comma, a parenthesis and a quote, all of them
quoted. -/
theorem quotes_agree_escaped :
    Bytes.closing (utf8 "@f(a=\"\\é,)\\\"\", b)".toList) 3 = .ok (.ok 17) ∧
      ∃ args, slice "@f(a=\"\\é,)\\\"\", b)" 3 17 = .ok args ∧
        Quoting.outside.after args.toList = .outside := by
  have h : Bytes.closing (utf8 "@f(a=\"\\é,)\\\"\", b)".toList) 3 = .ok (.ok 17) := by
    decide +kernel
  obtain ⟨-, hboundary, hagree⟩ := quotes_agree h
  obtain ⟨args, hargs⟩ := hboundary.mp (by decide +kernel)
  exact ⟨h, args, hargs, (hagree args hargs).1⟩

end AltRender.Directive

import AltRender.Proofs.Directive.Blanked

/-!
# `Proofs/Directive/Malformed` — a malformed directive affects nothing but itself

After a problem reading goes on right behind the name, so a malformed directive may stand in the
argument list of another malformed one, and in a quoted value of that list, and others may stand in
its own. Put a blank in place of its `@`, and it is gone, with nothing else changed: every other
attempt stays where it is, asks for the same or fails in the same way (`withdraw_malformed`). Only
the texts that a problem cites may show the blank.

Whoever looked at the `@` before was the search for the end of another list, or the reader of its
entries. The directive has an opening parenthesis behind its name, which the search would have
refused outside quotes. So either no list was closed, and the search does not tell an `@` from a
blank, or the `@` stands between quotes, where the readers of entries do not tell them apart either.
-/

set_option autoImplicit false

namespace AltRender.Directive

open AltRender.Text

/-! ## Reading on behind a name -/

/-- What stands on either side of the `@` of a directive inside or behind a list. -/
theorem split_closed {inside beyond xs name ys : List Char}
    (hname : ∀ c ∈ name, isNameChar c = true)
    (h : inside ++ ')' :: beyond = xs ++ '@' :: (name ++ '(' :: ys)) :
    (∃ zs, inside = xs ++ '@' :: (name ++ '(' :: zs) ∧ zs ++ ')' :: beyond = ys) ∨
      ∃ zs, xs = inside ++ ')' :: zs ∧ beyond = zs ++ '@' :: (name ++ '(' :: ys) := by
  rcases List.append_eq_append_iff.mp h with ⟨zs, hxs, hzs⟩ | ⟨zs, hinside, hzs⟩
  · cases zs with
    | nil => exact absurd (List.cons.inj hzs).1 (by decide)
    | cons z zs =>
      obtain ⟨rfl, hbeyond⟩ := List.cons.inj hzs
      exact .inr ⟨zs, hxs, hbeyond⟩
  · cases zs with
    | nil => exact absurd (List.cons.inj hzs).1 (by decide)
    | cons z zs =>
      obtain ⟨rfl, hrest⟩ := List.cons.inj hzs
      -- The name has no parenthesis, so it ends before the one that closes the list.
      rcases List.append_eq_append_iff.mp hrest with ⟨us, hus, hopen⟩ | ⟨us, hus, hclose⟩
      · cases us with
        | nil => exact absurd (List.cons.inj hopen).1 (by decide)
        | cons u us =>
          obtain ⟨rfl, hys⟩ := List.cons.inj hopen
          exact .inl ⟨us, by rw [hinside, hus], hys.symm⟩
      · cases us with
        | nil => exact absurd (List.cons.inj hclose).1 (by decide)
        | cons u us =>
          obtain ⟨rfl, -⟩ := List.cons.inj hclose
          exact absurd (hname ')' (by rw [hus]; simp)) (by decide)

/-- A list with a problem is read again from its parenthesis on. -/
theorem readTail_error {offset : Nat} {cs : List Char} {problem : Problem}
    (h : (readTail offset cs).1 = .error problem) :
    (readTail offset cs).2 = (offset, cs) ∧
    ∃ list, cs = '(' :: list ∧ (closing offset list = .error problem ∨
      ∃ closed, closing offset list = .ok closed ∧
        readArguments closed.inside = .error problem) := by
  generalize hresult : readTail offset cs = result at h ⊢
  cases readTail_cases hresult with
  | bare | listed => exact absurd h (by simp)
  | @unclosed list _ hclosing =>
    obtain rfl := Except.error.inj h
    exact ⟨rfl, list, rfl, .inl hclosing⟩
  | @refused list closed _ hclosing hread =>
    obtain rfl := Except.error.inj h
    exact ⟨rfl, list, rfl, .inr ⟨closed, hclosing, hread⟩⟩

/-- A list that fails does so in the same way when a malformed directive in it or behind it is
withdrawn. -/
theorem readTail_error_blank {offset : Nat} {xs name ys : List Char} {problem : Problem}
    (hname : ∀ c ∈ name, isNameChar c = true)
    (h : (readTail offset ('(' :: (xs ++ '@' :: (name ++ '(' :: ys)))).1 = .error problem) :
    ∃ problem', readTail offset ('(' :: (xs ++ ' ' :: (name ++ '(' :: ys))) =
      (.error problem', offset, '(' :: (xs ++ ' ' :: (name ++ '(' :: ys))) ∧
      problem'.outline = problem.outline := by
  obtain ⟨-, list, hlist, hcause⟩ := readTail_error h
  obtain rfl := (List.cons.inj hlist).2
  rcases hcause with hclosing | ⟨closed, hclosing, hargs⟩
  · have hclosing' : closing offset (xs ++ ' ' :: (name ++ '(' :: ys)) = .error problem :=
      closingFrom_of_error hclosing
    exact ⟨problem, (ReadsTail.unclosed hclosing').eq, rfl⟩
  · have hsealed := isSealed_of_closing hclosing
    rcases split_closed hname (closing_append hclosing) with ⟨zs, hinside, hys⟩ | ⟨zs, hxs, -⟩
    · -- The directive stands in the list, and there between quotes.
      rw [hinside] at hsealed hargs
      have hquoted := after_ne_outside_of_isSealed hsealed hname
      have hnext : ∃ c ∈ (name ++ '(' :: zs).head?, isBlank c = false := by
        cases name with
        | nil => exact ⟨'(', rfl, by decide⟩
        | cons c name =>
          exact ⟨c, rfl,
            (plain_of_isWordChar (isWordChar_of_isNameChar (hname c List.mem_cons_self))).1⟩
      have hfail := failAlike_readArguments ⟨xs, name ++ '(' :: zs, rfl, rfl, hquoted, hnext⟩
      rw [hargs] at hfail
      obtain ⟨problem', hargs', houtline⟩ := hfail.exists_error
      have hclosing' := closing_of_isSealed (hsealed.blanked (by decide)) offset closed.beyond
      have htext : (xs ++ ' ' :: (name ++ '(' :: zs)) ++ ')' :: closed.beyond =
        xs ++ ' ' :: (name ++ '(' :: ys) := by
        rw [← hys]
        simp
      rw [htext] at hclosing'
      exact ⟨problem', (ReadsTail.refused hclosing' hargs').eq, houtline⟩
    · -- It stands behind the list, which ends before it.
      have hclosing' := closing_of_isSealed hsealed offset (zs ++ ' ' :: (name ++ '(' :: ys))
      have htext : closed.inside ++ ')' :: (zs ++ ' ' :: (name ++ '(' :: ys)) =
        xs ++ ' ' :: (name ++ '(' :: ys) := by
        rw [hxs]
        simp
      rw [htext] at hclosing'
      exact ⟨problem, (ReadsTail.refused hclosing' hargs).eq, rfl⟩

/-- **What is read behind a name stays the same** when a malformed directive further on is
withdrawn. -/
theorem readTail_blank {offset : Nat} {cs xs name ys : List Char}
    (hname : ∀ c ∈ name, isNameChar c = true)
    (h : (readTail offset cs).2.2 = xs ++ '@' :: (name ++ '(' :: ys)) :
    ∃ front, cs = front ++ '@' :: (name ++ '(' :: ys) ∧
      (readTail offset (front ++ ' ' :: (name ++ '(' :: ys))).1.mapError Problem.outline =
        (readTail offset cs).1.mapError Problem.outline ∧
      (readTail offset (front ++ ' ' :: (name ++ '(' :: ys))).2 =
        ((readTail offset cs).2.1, xs ++ ' ' :: (name ++ '(' :: ys)) := by
  generalize hresult : readTail offset cs = result at h ⊢
  have hread := readTail_cases hresult
  cases hread with
  | bare hcs =>
    subst h
    have hblank : (xs ++ ' ' :: (name ++ '(' :: ys)).head? ≠ some '(' := by
      cases xs with
      | nil => simp
      | cons x xs => exact hcs
    have htail : readTail offset (xs ++ ' ' :: (name ++ '(' :: ys)) = _ :=
      (ReadsTail.bare hblank).eq
    exact ⟨xs, rfl, by rw [htail], by rw [htail]⟩
  | @listed list closed parameters hclosing hargs =>
    -- Reading goes on behind the list, so the directive stands there.
    have hbeyond : closed.beyond = xs ++ '@' :: (name ++ '(' :: ys) := h
    have hclosing' : closing offset (closed.inside ++ ')' :: xs ++ ' ' :: (name ++ '(' :: ys)) =
        .ok ⟨closed.inside, xs ++ ' ' :: (name ++ '(' :: ys)⟩ := by
      rw [List.append_assoc, List.cons_append]
      exact closing_of_isSealed (isSealed_of_closing hclosing) offset _
    have htail := (ReadsTail.listed hclosing' hargs).eq
    rw [← List.cons_append] at htail
    refine ⟨'(' :: (closed.inside ++ ')' :: xs), ?_, by rw [htail], by rw [htail]⟩
    rw [← closing_append hclosing, hbeyond]
    simp
  | @unclosed list problem | @refused list _ problem =>
    cases xs with
    | nil => exact absurd (List.cons.inj h).1 (by decide)
    | cons x xs =>
      obtain ⟨rfl, rfl⟩ := List.cons.inj h
      obtain ⟨problem', htail, houtline⟩ := readTail_error_blank hname (congrArg Prod.fst hresult)
      refine ⟨'(' :: xs, rfl, ?_, ?_⟩
      · rw [List.cons_append, htail]
        exact congrArg Except.error houtline
      · rw [List.cons_append, htail]

/-! ## The attempts of a text -/

/-- A name with a blank before it is plain text. -/
theorem attemptsFrom_word {attached : Bool} {offset : Nat} {name : List Char}
    (hname : ∀ c ∈ name, isNameChar c = true) (list : List Char) :
    attemptsFrom attached offset (name ++ '(' :: list) =
      attemptsFrom false (offset + name.length) ('(' :: list) := by
  induction name generalizing attached offset with
  | nil => simp [attemptsFrom]
  | cons c name ih =>
    obtain ⟨hc, hrest⟩ := List.forall_mem_cons.mp hname
    have hat : c ≠ '@' := by
      rintro rfl
      exact absurd hc (by decide)
    rw [List.cons_append, attemptsFrom, if_neg fun h => hat h.1, ih hrest,
      utf8Size_of_isNameChar hc, List.length_cons]
    congr 1
    omega

/-- What is read of a text leaves as much in front of an end of it as there was. -/
theorem byteLength_before_end {offset : Nat} {cs front xs ys : List Char} (hcs : cs = front ++ ys)
    (hrest : (readTail offset cs).2.2 = xs ++ ys) :
    (readTail offset cs).2.1 + byteLength xs = offset + byteLength front := by
  have hlength := byteLength_readTail offset cs
  rw [hrest] at hlength
  conv at hlength => rhs; rw [hcs]
  rw [byteLength_append, byteLength_append] at hlength
  omega

/-- A name ends where it did if an `@` behind it is replaced by a blank. -/
theorem isNameChar_head?_blank {rest front ys : List Char}
    (h : rest.dropWhile isNameChar = front ++ '@' :: ys) :
    ∀ c ∈ (front ++ ' ' :: ys).head?, isNameChar c = false := by
  intro c hc
  cases front with
  | nil =>
    obtain rfl := Option.some.inj hc
    decide
  | cons x front =>
    obtain rfl := Option.some.inj hc
    have hnot := List.head?_dropWhile_not isNameChar rest
    rw [h] at hnot
    simpa using hnot

/-- **A malformed attempt withdrawn leaves all others as they are,** up to the texts that their
problems cite. -/
theorem attemptsFrom_blank {attached : Bool} {offset : Nat} {cs : List Char} {back : List Attempt}
    {a : Attempt} {problem : Problem} (ha : a.outcome = .error problem) :
    ∀ {front : List Attempt}, attemptsFrom attached offset cs = front ++ a :: back →
      ∃ xs name ys, cs = xs ++ '@' :: (name ++ '(' :: ys) ∧ (∀ c ∈ name, isNameChar c = true) ∧
        offset + byteLength xs = a.offset ∧
        (attemptsFrom attached offset (xs ++ ' ' :: (name ++ '(' :: ys))).map Attempt.outline =
          (front ++ back).map Attempt.outline := by
  induction attached, offset, cs using attemptsFrom.induct with
  | case1 attached offset =>
    intro front h
    exact absurd h (by simp [attemptsFrom])
  | case2 attached offset c rest name hc behind tail =>
    rename_i ih
    intro front h
    obtain ⟨rfl, hattached, hne⟩ := hc
    have hname : ∀ c ∈ name, isNameChar c = true := List.all_eq_true.mp List.all_takeWhile
    have hsplit : rest = name ++ rest.dropWhile isNameChar := List.takeWhile_append_dropWhile.symm
    rw [attemptsFrom, if_pos ⟨rfl, hattached, hne⟩] at h
    cases front with
    | nil =>
      -- The attempt itself: its name becomes a word, and reading goes on at its list as it did.
      obtain ⟨rfl, rfl⟩ := List.cons.inj h
      obtain ⟨hrest, list, hlist, -⟩ := readTail_error ha
      refine ⟨[], name, list, ?_, hname, by simp, ?_⟩
      · rw [List.nil_append, ← hlist, ← hsplit]
      · rw [List.nil_append, List.nil_append, attemptsFrom, if_neg (by simp),
          attemptsFrom_word hname]
        rw [hrest, hlist]
        rfl
    | cons first front =>
      obtain ⟨rfl, hrest⟩ := List.cons.inj h
      obtain ⟨xs, name', ys, htext, hname', hoffset, houtline⟩ := ih hrest
      obtain ⟨start, hdrop, hfirst, hbehind⟩ := readTail_blank hname' htext
      have hattached' : attached = false := by simpa using hattached
      have hne' : name ≠ [] := by simpa using hne
      refine ⟨'@' :: (name ++ start), name', ys, ?_, hname', ?_, ?_⟩
      · rw [hsplit, hdrop]
        simp
      · have hlength : tail.2.1 + byteLength xs = behind + byteLength start :=
          byteLength_before_end hdrop htext
        rw [← hoffset, hlength, byteLength_cons, byteLength_append, byteLength_of_isNameChar hname,
          show '@'.utf8Size = 1 from rfl]
        simp only [behind]
        omega
      · rw [List.cons_append, List.append_assoc, hattached',
          attemptsFrom_directive hne' hname (isNameChar_head?_blank hdrop), List.map_cons, hbehind,
          houtline, List.cons_append, List.map_cons, Attempt.outline, hfirst]
        rfl
  | case3 attached offset c rest name hc =>
    rename_i ih
    intro front h
    rw [attemptsFrom, if_neg hc] at h
    obtain ⟨xs, name', ys, rfl, hname', hoffset, houtline⟩ := ih h
    have hcond : ¬ (c = '@' ∧ (!attached) = true ∧
        (!((xs ++ ' ' :: (name' ++ '(' :: ys)).takeWhile isNameChar).isEmpty) = true) := by
      rw [takeWhile_append_of_neg (by decide)]
      rw [show name = _ from takeWhile_append_of_neg (by decide) _ _] at hc
      exact hc
    refine ⟨c :: xs, name', ys, rfl, hname', ?_, ?_⟩
    · rw [← hoffset, byteLength_cons, Nat.add_assoc]
    · rw [List.cons_append, attemptsFrom, if_neg hcond, houtline]

/-! ## Annotations -/

/-- The text with a blank in place of the character at an offset. -/
def blankAt (offset : Nat) : List Char → List Char
  | [] => []
  | c :: cs => if offset = 0 then ' ' :: cs else c :: blankAt (offset - c.utf8Size) cs

theorem blankAt_append (xs : List Char) (c : Char) (ys : List Char) :
    blankAt (byteLength xs) (xs ++ c :: ys) = xs ++ ' ' :: ys := by
  induction xs with
  | nil => rfl
  | cons x xs ih =>
    have hsize := x.utf8Size_pos
    rw [List.cons_append, blankAt, byteLength_cons, if_neg (by omega), Nat.add_sub_cancel_left, ih,
      List.cons_append]

/-- **The annotation without a directive:** its `@` is replaced by a blank. -/
def withdraw (a : Attempt) (text : String) : String :=
  String.ofList (blankAt a.offset text.toList)

/-- **A malformed directive affects nothing but itself.** Withdrawn, it leaves all that is asked for
as it is, and all other problems in their order, with their kinds, their directives and their
offsets. -/
theorem withdraw_malformed {text : String} {front back : List Attempt} {a : Attempt}
    {problem : Problem} (h : attempts text = front ++ a :: back) (ha : a.outcome = .error problem) :
    (∃ before after, text = before ++ "@" ++ after ∧ byteLength before.toList = a.offset ∧
      withdraw a text = before ++ " " ++ after) ∧
    specs (withdraw a text) = specs text ∧
    diagnostics text = front.filterMap Attempt.diagnostic? ++
      ⟨a.name, problem⟩ :: back.filterMap Attempt.diagnostic? ∧
    (diagnostics (withdraw a text)).map Diagnostic.outline =
      (front.filterMap Attempt.diagnostic? ++ back.filterMap Attempt.diagnostic?).map
        Diagnostic.outline := by
  obtain ⟨xs, name, ys, htext, -, hoffset, houtline⟩ := attemptsFrom_blank ha h
  rw [Nat.zero_add] at hoffset
  have hwithdraw : withdraw a text = String.ofList (xs ++ ' ' :: (name ++ '(' :: ys)) := by
    rw [withdraw, htext, ← hoffset, blankAt_append]
  have hattempts : (attempts (withdraw a text)).map Attempt.outline =
    (front ++ back).map Attempt.outline := by
    rw [attempts, hwithdraw, String.toList_ofList, houtline]
  have hspec : a.spec? = none := by rw [Attempt.spec?, ha]
  have hdiagnostic : a.diagnostic? = some ⟨a.name, problem⟩ := by rw [Attempt.diagnostic?, ha]
  refine ⟨⟨String.ofList xs, String.ofList (name ++ '(' :: ys), ?_, ?_, ?_⟩, ?_, ?_, ?_⟩
  · rw [← String.toList_inj, htext]
    simp
  · rw [String.toList_ofList, hoffset]
  · rw [hwithdraw, ← String.toList_inj]
    simp
  · rw [specs, specs_of_outline hattempts, specs, h]
    simp [hspec]
  · rw [diagnostics, h]
    simp [hdiagnostic]
  · rw [diagnostics, diagnostics_of_outline hattempts, List.filterMap_append]

/-- A directive between the quotes of a key, which the problem of the other directive cites. -/
theorem withdraw_malformed_nested :
    specs "@tone(\" x(y\") @invert" = specs "@tone(\"@x(y\") @invert" ∧
      diagnostics "@tone(\"@x(y\") @invert" =
        [⟨"tone", .badKey "\"@x(y\""⟩, ⟨"x", .unterminated 11⟩] ∧
      (diagnostics "@tone(\" x(y\") @invert").map Diagnostic.outline = [⟨"tone", .badKey ""⟩] := by
  have h : attempts "@tone(\"@x(y\") @invert" =
      [⟨0, "tone", .error (.badKey "\"@x(y\"")⟩] ++ ⟨7, "x", .error (.unterminated 11)⟩ ::
        [⟨14, "invert", .ok Keyed.empty⟩] := by
    with_unfolding_all rfl
  have hwithdraw : withdraw ⟨7, "x", .error (.unterminated 11)⟩ "@tone(\"@x(y\") @invert" =
      "@tone(\" x(y\") @invert" := by
    decide +kernel
  obtain ⟨-, hspecs, hdiagnostics, houtline⟩ := withdraw_malformed h rfl
  rw [hwithdraw] at hspecs houtline
  exact ⟨hspecs, hdiagnostics, houtline⟩

end AltRender.Directive

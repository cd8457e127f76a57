import AltRender.Proofs.Directive.Bytes

/-!
# `Proofs/Directive/ByteReader` — an annotation is read alike by bytes and by characters

From the two scanners the agreement goes up through the reader part by part: keys and entries,
argument lists, names, single directives, and at last the run over the annotation. Each part is
shown to give, without a slip, what the part of the same name gives on the characters; so the run
never slips (`attempts_without_slip`), and all the names, keys, values and problems that it returns
are texts.

The reader by bytes looks at every byte of the text, also at those inside of characters, and decides
anew each time whether a directive begins. What has to be seen is that it never does inside of a
character. An `@` is one byte, and so is every name character and every mark, while all bytes that
go on with a character are from 128 on. So the run by bytes stands still on these, so to speak, and
the induction can go character by character (`attemptsFrom_plain`).
-/

set_option autoImplicit false

namespace AltRender.Directive.Bytes

open AltRender.Text

/-! ## Names -/

theorem isNameByte_of_large {b : UInt8} (h : 128 ≤ b.toNat) : isNameByte b = false :=
  forall_byte (P := fun b => 128 ≤ b.toNat → isNameByte b = false) (by decide +kernel) b h

theorem isNameChar_of_large {c : Char} (h : 128 ≤ c.toNat) : isNameChar c = false :=
  Bool.eq_false_iff.mpr fun hname => by
    have := toNat_lt_of_isWordChar (isWordChar_of_isNameChar hname)
    omega

theorem isNameByte_leadByte (c : Char) : isNameByte (leadByte c) = isNameChar c := by
  rcases utf8EncodeChar_cases c with ⟨hascii, hlead, -⟩ | ⟨hlarge, hlead, -⟩
  · rw [hlead]
    exact of_ascii (P := fun c => isNameByte c.toUInt8 = isNameChar c) (by decide +kernel) hascii
  · have hlead' : 192 ≤ (leadByte c).toNat := UInt8.le_iff_toNat_le.mp hlead
    rw [isNameChar_of_large hlarge, isNameByte_of_large (by omega)]

theorem isNameByte_of_isContinuation {b : UInt8} (h : isContinuation b = true) :
    isNameByte b = false :=
  isNameByte_of_large (isContinuation_iff.mp h).1

theorem all_isNameByte (cs : List Char) : (utf8 cs).all isNameByte = cs.all isNameChar := by
  induction cs with
  | nil => rfl
  | cons c cs ih =>
    rw [utf8_cons, List.all_cons, List.all_append, ih, isNameByte_leadByte, List.all_cons]
    cases hname : isNameChar c with
    | false => rw [Bool.false_and, Bool.false_and]
    | true =>
      rw [trail_of_ascii (toNat_lt_of_isWordChar (isWordChar_of_isNameChar hname)), List.all_nil,
        Bool.true_and]

theorem isKey_ofList (cs : List Char) : isKey (String.ofList cs) = Directive.isKey cs := by
  rw [isKey, Directive.isKey, String.toList_ofList, all_isNameByte]
  cases cs <;> simp

/-- The last byte before an offset belongs to a name if the last character does. -/
theorem isNameByte_before (xs : List Char) (c : Char) (ys : List Char) :
    ∃ b, byteAt (utf8 (xs ++ [c] ++ ys)) (byteLength (xs ++ [c]) - 1) = .ok b ∧
      isNameByte b = isNameChar c := by
  have hlength := length_trail c
  have hoffset : byteLength (xs ++ [c]) - 1 = byteLength xs + (trail c).length := by
    rw [byteLength_append, byteLength_cons, byteLength_nil]
    omega
  rw [hoffset]
  -- The last byte of a character is its lead byte or a continuation, and a continuation belongs to
  -- a character too large for ASCII.
  rcases List.eq_nil_or_concat (trail c) with htrail | ⟨front, b, htrail⟩
  · refine ⟨leadByte c, ?_, isNameByte_leadByte c⟩
    rw [htrail, List.length_nil, Nat.add_zero, List.append_assoc]
    exact byteAt_utf8 xs c ys
  · have hb : isContinuation b = true := isContinuation_of_mem_trail (by rw [htrail]; simp)
    have hlarge : 128 ≤ c.toNat := by
      rcases utf8EncodeChar_cases c with ⟨-, -, hnil⟩ | ⟨hlarge, -, -⟩
      · exact absurd (htrail.symm.trans hnil) (by simp)
      · exact hlarge
    refine ⟨b, ?_, by rw [isNameByte_of_isContinuation hb, isNameChar_of_large hlarge]⟩
    have hbytes : utf8 (xs ++ [c] ++ ys) = (utf8 xs ++ leadByte c :: front) ++ b :: utf8 ys := by
      rw [utf8_append, utf8_append, utf8_cons, htrail]
      simp
    have hfront : byteLength xs + (trail c).length = (utf8 xs ++ leadByte c :: front).length := by
      rw [htrail]
      simp [length_utf8]
    rw [hbytes, hfront]
    exact byteAt_append _ _ _

theorem nameEnd_utf8 (xs ys : List Char) :
    nameEnd (utf8 (xs ++ ys)) (byteLength xs) =
      .ok (byteLength (xs ++ ys.takeWhile isNameChar)) := by
  induction ys generalizing xs with
  | nil =>
    rw [nameEnd, if_neg (by simp [length_utf8]), List.takeWhile_nil, List.append_nil]
    rfl
  | cons c ys ih =>
    have hbyte := byteAt_utf8 xs c ys
    rw [nameEnd, if_pos (lt_of_byteAt hbyte), hbyte]
    show (if isNameByte (leadByte c) = true then nameEnd _ (byteLength xs + 1)
      else .ok (byteLength xs)) = _
    rw [isNameByte_leadByte]
    cases hname : isNameChar c with
    | false =>
      rw [if_neg Bool.false_ne_true, List.takeWhile_cons_of_neg (by rw [hname]; decide),
        List.append_nil]
    | true =>
      have hnext : byteLength xs + 1 = byteLength (xs ++ [c]) := by
        simp [utf8Size_of_isNameChar hname]
      have hrest := ih (xs ++ [c])
      rw [List.append_assoc, List.append_assoc, List.singleton_append, List.singleton_append]
        at hrest
      rw [if_pos rfl, List.takeWhile_cons_of_pos hname, hnext, hrest]

/-- The end of the name behind an `@`. -/
theorem nameEnd_behind (xs ys : List Char) :
    nameEnd (utf8 (xs ++ '@' :: ys)) (byteLength xs + 1) =
      .ok (byteLength (xs ++ '@' :: ys.takeWhile isNameChar)) := by
  have hname := nameEnd_utf8 (xs ++ ['@']) ys
  rwa [List.append_assoc, List.append_assoc, List.singleton_append, List.singleton_append,
    byteLength_append xs ['@']]
    at hname

/-! ## Arguments -/

theorem trimmed_ofList (cs : List Char) : trimmed (String.ofList cs) = String.ofList (trim cs) := by
  rw [trimmed, String.toList_ofList]

theorem readEntry_ofList (entry : List Char) :
    readEntry (String.ofList entry) = .ok (Directive.readEntry entry) := by
  have htrimmed : trimmed ∘ String.ofList = String.ofList ∘ trim := funext trimmed_ofList
  have hparts : readEntry (String.ofList entry) =
      .ok (readParts (String.ofList entry)
        (((Directive.pieces '=' entry).map trim).map String.ofList)) := by
    rw [readEntry, pieces_utf8 _ (by decide) (by decide), String.toList_ofList, List.map_map,
      ← htrimmed, ← List.map_map]
    rfl
  rw [hparts, Directive.readEntry]
  congr 1
  generalize (Directive.pieces '=' entry).map trim = ps
  obtain _ | ⟨key, _ | ⟨value, _ | ⟨third, rest⟩⟩⟩ := ps
  · rfl
  · simp only [List.map_cons, List.map_nil, readParts, isKey_ofList]
  · cases hvalue : readValue value with
    | none =>
      simp only [List.map_cons, List.map_nil, readParts, isKey_ofList, String.toList_ofList, hvalue]
    | some v =>
      simp only [List.map_cons, List.map_nil, readParts, isKey_ofList, String.toList_ofList, hvalue]
  · rfl

/-- The entries are put in one after the other, as far as they can be read. -/
theorem readEntries_ofList (parameters : Parameters) (ps : List (List Char)) :
    readEntries parameters (ps.map String.ofList) =
      .ok ((((ps.map trim).filter fun entry => !entry.isEmpty).mapM Directive.readEntry).map
        fun arguments =>
        arguments.foldl (fun m e => m.insert e.1 e.2) parameters) := by
  induction ps generalizing parameters with
  | nil => rfl
  | cons p ps ih =>
    rw [List.map_cons, readEntries, trimmed_ofList, List.map_cons]
    cases htrim : trim p with
    | nil =>
      rw [if_pos (by rfl), ih, List.filter_cons_of_neg (by simp)]
    | cons c cs =>
      rw [if_neg (by simp), ← htrim, readEntry_ofList, List.filter_cons_of_pos (by rw [htrim]; rfl),
        List.mapM_cons]
      cases hentry : Directive.readEntry (trim p) with
      | error problem => rfl
      | ok argument =>
        show readEntries (parameters.insert argument.1 argument.2) (ps.map String.ofList) = _
        rw [ih]
        cases ((ps.map trim).filter fun entry => !entry.isEmpty).mapM Directive.readEntry <;> rfl

/-- **Arguments by bytes.** -/
theorem readArguments_ofList (cs : List Char) :
    readArguments (String.ofList cs) = .ok (Directive.readArguments cs) := by
  rw [readArguments, pieces_utf8 _ (by decide) (by decide), String.toList_ofList]
  exact readEntries_ofList Keyed.empty (Directive.pieces ',' cs)

/-! ## Directives -/

/-- The argument list behind a parenthesis. -/
theorem readList_utf8 {text : String} {xs ys : List Char} (htext : text.toList = xs ++ '(' :: ys) :
    readList text (byteLength xs + 1) =
      .ok (match Directive.closing (byteLength xs) ys with
        | .error problem => .error problem
        | .ok closed => (Directive.readArguments closed.inside).map fun parameters =>
          (parameters, byteLength xs + 1 + byteLength closed.inside)) := by
  have hfirst : byteLength xs + 1 = byteLength (xs ++ ['(']) := by
    simp [show '('.utf8Size = 1 from rfl]
  have htext' : text.toList = xs ++ ['('] ++ ys := by rw [htext, List.append_cons]
  have hclosed := closing_utf8 (xs ++ ['(']) ys (by rw [← hfirst]; exact Nat.succ_pos _)
  rw [← htext', ← hfirst, Nat.add_sub_cancel] at hclosed
  rw [readList, bind_of_ok hclosed]
  cases hclosing : Directive.closing (byteLength xs) ys with
  | error problem => rfl
  | ok closed =>
    have hslice :
      slice text (byteLength (xs ++ ['('])) (byteLength (xs ++ ['('] ++ closed.inside)) =
        .ok (String.ofList closed.inside) :=
      slice_append (by rw [htext', List.append_assoc _ closed.inside, closing_append hclosing])
    rw [byteLength_append (xs ++ ['(']), ← hfirst] at hslice
    simp only [closedAt, Except.map]
    rw [bind_of_ok hslice, bind_of_ok (readArguments_ofList closed.inside)]
    cases Directive.readArguments closed.inside <;> rfl

/-- **A directive by bytes:** the name is cut out, and reading goes on where it goes on by
characters. -/
theorem readDirective_utf8 {text : String} {xs name tail : List Char}
    (htext : text.toList = xs ++ '@' :: (name ++ tail)) :
    readDirective text (byteLength xs) (byteLength (xs ++ '@' :: name)) =
      .ok (⟨byteLength xs, String.ofList name, (readTail (byteLength (xs ++ '@' :: name)) tail).1⟩,
        ⟨(readTail (byteLength (xs ++ '@' :: name)) tail).2.1,
          byteLength (xs ++ '@' :: name)⟩) := by
  have hname : slice text (byteLength xs + 1) (byteLength (xs ++ '@' :: name)) =
    .ok (String.ofList name) := by
    have hslice : slice text (byteLength (xs ++ ['@'])) (byteLength (xs ++ ['@'] ++ name)) =
      .ok (String.ofList name) :=
      slice_append (htext.trans (by simp) : text.toList = xs ++ ['@'] ++ name ++ tail)
    rwa [List.append_assoc, List.singleton_append, byteLength_append xs ['@']] at hslice
  have htail : text.toList = (xs ++ '@' :: name) ++ tail := by rw [htext]; simp
  rw [readDirective, bind_of_ok hname]
  generalize xs ++ '@' :: name = front at htail ⊢
  cases tail with
  | nil =>
    have hend : (utf8 text.toList)[byteLength front]? = none := by
      rw [htail, List.append_nil, List.getElem?_eq_none_iff, length_utf8]
    rw [hend, if_neg (by simp)]
    rfl
  | cons c tail =>
    have hbyte : (utf8 text.toList)[byteLength front]? = some (leadByte c) := by
      rw [htail, getElem?_utf8]
    rw [hbyte]
    -- A list is read only where a parenthesis follows the name at once; any other character leaves
    -- the arguments empty, and the reader where it is.
    by_cases hlist : c = '('
    · subst hlist
      rw [if_pos (congrArg some ((leadByte_eq_iff (by decide)).mpr rfl)),
        bind_of_ok (readList_utf8 htail)]
      simp only [readTail]
      cases Directive.closing (byteLength front) tail with
      | error problem => rfl
      | ok closed =>
        cases hargs : Directive.readArguments closed.inside with
        | error problem => simp only [hargs]; rfl
        | ok parameters =>
          have hbehind : byteLength front + 1 + byteLength closed.inside + 1 =
            byteLength front + byteLength closed.inside + 2 := by
            omega
          simp only [hargs, Except.map, hbehind]
          rfl
    · have hother : readTail (byteLength front) (c :: tail) =
        (.ok Keyed.empty, byteLength front, c :: tail) := by
        simp [readTail, hlist]
      rw [if_neg fun h => hlist ((leadByte_eq_iff (by decide)).mp (Option.some.inj h)), hother]
      rfl

/-! ## Annotations -/

section Run

variable {text : String} {xs : List Char} {named : Nat}

/-- Whether the text before a place belongs to a word that is not the name that ends there. -/
def isWordBefore (named : Nat) (xs : List Char) : Bool :=
  byteLength xs != named && xs.getLast?.any isNameChar

theorem isAttached_utf8 (xs ys : List Char) (named : Nat) :
    isAttached (utf8 (xs ++ ys)) ⟨byteLength xs, named⟩ = .ok (isWordBefore named xs) := by
  rcases List.eq_nil_or_concat xs with rfl | ⟨front, c, rfl⟩
  · rw [isAttached, if_neg fun h => Nat.lt_irrefl 0 h.1, isWordBefore, List.getLast?_nil,
      Option.any_none, Bool.and_false]
    rfl
  · rw [List.concat_eq_append]
    have hpos : 0 < byteLength (front ++ [c]) := by
      have := c.utf8Size_pos
      rw [byteLength_append, byteLength_cons, byteLength_nil]
      omega
    rw [isAttached, isWordBefore, List.getLast?_concat, Option.any_some]
    by_cases hnamed : byteLength (front ++ [c]) = named
    · rw [if_neg fun h => h.2 hnamed, bne_eq_false_iff_eq.mpr hnamed, Bool.false_and]
      rfl
    · obtain ⟨b, hbyte, hb⟩ := isNameByte_before front c ys
      have hless : oneLess (byteLength (front ++ [c])) = .ok (byteLength (front ++ [c]) - 1) :=
        if_neg (Nat.ne_of_gt hpos)
      rw [if_pos ⟨hpos, hnamed⟩, bind_of_ok hless, bind_of_ok hbyte, hb, bne_iff_ne.mpr hnamed,
        Bool.true_and]
      rfl

/-- What is no `@`, or no directive, is passed over. -/
theorem readAt_plain {c : Char} {ys : List Char} (htext : text.toList = xs ++ c :: ys)
    (hplain :
      ¬ (c = '@' ∧ isWordBefore named xs = false ∧ (ys.takeWhile isNameChar).isEmpty = false)) :
    readAt text ⟨byteLength xs, named⟩ = .ok (none, ⟨byteLength xs + 1, named⟩) := by
  have hbyte : byteAt (utf8 text.toList) (byteLength xs) = .ok (leadByte c) := by
    rw [htext, byteAt_utf8]
  rw [readAt, bind_of_ok hbyte]
  by_cases hmark : c = '@'
  · subst hmark
    have hattached := isAttached_utf8 xs ('@' :: ys) named
    rw [← htext] at hattached
    rw [if_neg (not_not.mpr ((leadByte_eq_iff (by decide)).mpr rfl)), bind_of_ok hattached]
    cases hword : isWordBefore named xs with
    | true => rfl
    | false =>
      have hempty : ys.takeWhile isNameChar = [] := by
        by_contra hne
        exact hplain ⟨rfl, hword, by simpa using hne⟩
      have hname := nameEnd_behind xs ys
      rw [hempty, ← htext] at hname
      rw [if_neg Bool.false_ne_true, bind_of_ok hname]
      exact if_pos (byteLength_append xs ['@'])
  · rw [if_pos (mt (leadByte_eq_iff (by decide)).mp hmark)]
    rfl

/-- **A directive is read** where one begins. -/
theorem readAt_directive {ys : List Char} (htext : text.toList = xs ++ '@' :: ys)
    (hword : isWordBefore named xs = false) (hname : ys.takeWhile isNameChar ≠ []) :
    readAt text ⟨byteLength xs, named⟩ =
      let name := ys.takeWhile isNameChar
      let behind := byteLength (xs ++ '@' :: name)
      let tail := readTail behind (ys.dropWhile isNameChar)
      .ok (some ⟨byteLength xs, String.ofList name, tail.1⟩, ⟨tail.2.1, behind⟩) := by
  have hbyte : byteAt (utf8 text.toList) (byteLength xs) = .ok (leadByte '@') := by
    rw [htext, byteAt_utf8]
  have hattached := isAttached_utf8 xs ('@' :: ys) named
  rw [← htext, hword] at hattached
  have hstop := nameEnd_behind xs ys
  rw [← htext] at hstop
  -- The name is not empty, so the `@` does not stand alone.
  have hlong : byteLength (xs ++ '@' :: ys.takeWhile isNameChar) ≠ byteLength xs + 1 := by
    have := List.length_pos_of_ne_nil hname
    rw [byteLength_append, byteLength_cons,
      byteLength_of_isNameChar (fun c => List.mem_takeWhile_imp), show '@'.utf8Size = 1 from rfl]
    omega
  have hsplit : text.toList =
    xs ++ '@' :: (ys.takeWhile isNameChar ++ ys.dropWhile isNameChar) := by
    rw [htext, List.takeWhile_append_dropWhile]
  rw [readAt, bind_of_ok hbyte, if_neg (not_not.mpr ((leadByte_eq_iff (by decide)).mpr rfl)),
    bind_of_ok hattached, if_neg Bool.false_ne_true, bind_of_ok hstop]
  dsimp only
  rw [if_neg hlong, bind_of_ok (readDirective_utf8 hsplit)]
  rfl

theorem attemptsFrom_of_readAt {m next : Mark} {attempt : Option Attempt}
    (hoffset : m.offset < (utf8 text.toList).length) (h : readAt text m = .ok (attempt, next)) :
    attemptsFrom text m = (attemptsFrom text next).map fun rest => attempt.toList ++ rest := by
  rw [attemptsFrom, if_pos hoffset]
  split
  · rename_i slip hslip
    exact absurd (hslip.symm.trans h) (by simp)
  · rename_i attempt' next' hread
    obtain ⟨rfl, rfl⟩ := Prod.mk.inj (Except.ok.inj (hread.symm.trans h))
    cases attemptsFrom text next' <;> rfl

/-- Behind the first byte of a character that begins nothing, the rest of it begins nothing
either. -/
theorem attemptsFrom_plain {c : Char} {ys : List Char} (htext : text.toList = xs ++ c :: ys)
    (hplain :
      ¬ (c = '@' ∧ isWordBefore named xs = false ∧ (ys.takeWhile isNameChar).isEmpty = false)) :
    attemptsFrom text ⟨byteLength xs, named⟩ =
      attemptsFrom text ⟨byteLength (xs ++ [c]), named⟩ := by
  have hbyte : byteAt (utf8 text.toList) (byteLength xs) = .ok (leadByte c) := by
    rw [htext, byteAt_utf8]
  have hskip : attemptsFrom text ⟨byteLength xs + 1, named⟩ =
    attemptsFrom text ⟨byteLength (xs ++ [c]), named⟩ := by
    refine skip_trail
      (f := fun i => attemptsFrom text ⟨i, named⟩) xs c ys fun i b hb hcontinuation => ?_
    rw [← htext] at hb
    have hread : readAt text ⟨i, named⟩ = .ok (none, ⟨i + 1, named⟩) := by
      rw [readAt, bind_of_ok hb, if_pos (ne_of_isContinuation hcontinuation (by decide))]
      rfl
    rw [attemptsFrom_of_readAt (lt_of_byteAt hb) hread]
    cases attemptsFrom text ⟨i + 1, named⟩ <;> rfl
  rw [attemptsFrom_of_readAt (lt_of_byteAt hbyte) (readAt_plain htext hplain), ← hskip]
  cases attemptsFrom text ⟨byteLength xs + 1, named⟩ <;> rfl

/-- Where reading goes on behind a name: at its end, or behind the parenthesis of its arguments. No
word ends there. -/
theorem readTail_place (front tail : List Char) :
    ∃ inside, front ++ tail = front ++ inside ++ (readTail (byteLength front) tail).2.2 ∧
      (readTail (byteLength front) tail).2.1 = byteLength (front ++ inside) ∧
      isWordBefore (byteLength front) (front ++ inside) = false := by
  have hnone : isWordBefore (byteLength front) (front ++ []) = false := by
    rw [isWordBefore, List.append_nil, bne_self_eq_false, Bool.false_and]
  generalize hresult : readTail (byteLength front) tail = result
  cases readTail_cases hresult with
  | bare | unclosed | refused => exact ⟨[], by simp, by simp, hnone⟩
  | @listed list closed _ hclosing =>
    refine ⟨'(' :: (closed.inside ++ [')']), ?_, ?_, ?_⟩
    · rw [← closing_append hclosing]
      simp
    · simp only [byteLength_append, byteLength_cons, byteLength_nil, show ')'.utf8Size = 1 from rfl,
        show '('.utf8Size = 1 from rfl]
      omega
    · rw [isWordBefore, ← List.cons_append, ← List.append_assoc, List.getLast?_concat,
        Option.any_some, show isNameChar ')' = false from rfl, Bool.and_false]

end Run

/-- **The run by bytes is the run by characters.** `xs` has been read, and the last name ended at
`named`. -/
theorem attemptsFrom_utf8 {text : String} {named : Nat} (xs ys : List Char)
    (htext : text.toList = xs ++ ys) (hnamed : named ≤ byteLength xs) :
    attemptsFrom text ⟨byteLength xs, named⟩ =
      .ok (Directive.attemptsFrom (isWordBefore named xs) (byteLength xs) ys) := by
  match ys with
  | [] =>
    rw [attemptsFrom, if_neg (by rw [htext]; simp [length_utf8]), Directive.attemptsFrom]
    rfl
  | c :: ys =>
    by_cases hdirective : c = '@' ∧ isWordBefore named xs = false ∧
      (ys.takeWhile isNameChar).isEmpty = false
    · obtain ⟨rfl, hword, hname⟩ := hdirective
      have hbyte : byteAt (utf8 text.toList) (byteLength xs) = .ok (leadByte '@') := by
        rw [htext, byteAt_utf8]
      have hread := readAt_directive htext hword (by simpa using hname)
      -- What the tail consumed has a length of its own in characters and in bytes; `readTail_place`
      -- splits the text where both readers resume.
      have hbehind : byteLength xs + 1 + (ys.takeWhile isNameChar).length =
          byteLength (xs ++ '@' :: ys.takeWhile isNameChar) := by
        rw [byteLength_append, byteLength_cons,
          byteLength_of_isNameChar (fun c => List.mem_takeWhile_imp),
          show '@'.utf8Size = 1 from rfl]
        omega
      obtain ⟨inside, hsplit, hoffset, hplace⟩ :=
        readTail_place (xs ++ '@' :: ys.takeWhile isNameChar) (ys.dropWhile isNameChar)
      have hrest : text.toList = xs ++ '@' :: ys.takeWhile isNameChar ++ inside ++
          (readTail (byteLength (xs ++ '@' :: ys.takeWhile isNameChar))
            (ys.dropWhile isNameChar)).2.2 := by
        rw [← hsplit, htext]
        simp
      rw [attemptsFrom_of_readAt (lt_of_byteAt hbyte) hread, Directive.attemptsFrom,
        if_pos ⟨rfl, by simp [hword], by simpa using hname⟩, hbehind]
      dsimp only
      have hnamed : byteLength (xs ++ '@' :: ys.takeWhile isNameChar) ≤
          byteLength (xs ++ '@' :: ys.takeWhile isNameChar ++ inside) := by simp
      rw [hoffset, attemptsFrom_utf8 _ _ hrest hnamed, hplace]
      rfl
    · have hmodel : ¬ (c = '@' ∧ (!isWordBefore named xs) = true ∧
        (!(ys.takeWhile isNameChar).isEmpty) = true) := by
        simpa using hdirective
      -- The character passed over is in front now, so whether a word stands before the next
      -- position is whether it belongs to a name.
      have hafter : isWordBefore named (xs ++ [c]) = isNameChar c := by
        have hpos := c.utf8Size_pos
        rw [isWordBefore, List.getLast?_concat, Option.any_some, bne_iff_ne.mpr, Bool.true_and]
        rw [byteLength_append, byteLength_cons, byteLength_nil]
        omega
      have hnamed' : named ≤ byteLength (xs ++ [c]) := by
        rw [byteLength_append]
        omega
      rw [attemptsFrom_plain htext hdirective,
        attemptsFrom_utf8 (xs ++ [c]) ys (by rw [htext]; simp) hnamed',
        Directive.attemptsFrom, if_neg hmodel, hafter]
      simp
termination_by ys.length
decreasing_by
  · have hshorter := Nat.le_trans
      (length_readTail_le (byteLength (xs ++ '@' :: ys.takeWhile isNameChar))
        (ys.dropWhile isNameChar))
      (length_dropWhile_le isNameChar ys)
    simp only [List.length_cons]
    omega
  · exact Nat.lt_succ_self _

/-- **Reading a text by its bytes makes no slip,** and gives what reading it by its characters
gives: annotations, argument lists, and the two cuts. The search for a closing parenthesis makes
none either, whatever the bytes are, if it starts behind a first one. -/
theorem attempts_without_slip (text : String) :
    attempts text = .ok (Directive.attempts text) ∧
      readArguments text = .ok (Directive.readArguments text.toList) ∧
      (∀ delimiter ∈ [',', '='],
        pieces text delimiter = .ok ((Directive.pieces delimiter text.toList).map String.ofList)) ∧
      ∀ (bytes : List UInt8) (start : Nat), ∃ outcome, closing bytes (start + 1) = .ok outcome := by
  refine ⟨attemptsFrom_utf8 [] text.toList rfl (Nat.le_refl 0), ?_, ?_, ?_⟩
  · have hread := readArguments_ofList text.toList
    rwa [String.ofList_toList] at hread
  · intro delimiter hdelimiter
    obtain ⟨hascii, hquote⟩ : delimiter.toNat < 128 ∧ delimiter ≠ '"' := by
      rcases List.mem_pair.mp hdelimiter with rfl | rfl <;> decide
    exact pieces_utf8 text hascii hquote
  · intro bytes start
    exact exists_closingFrom (Nat.succ_pos start) false (start + 1) (start + 1)

end AltRender.Directive.Bytes

import AltRender.Registry

/-!
# `Proofs/Directive/Compose` — annotations one after the other

What stands behind an annotation can change what the annotation means: it may close an argument list
or a quote that the annotation left open, or make a longer name of the one at its end. A blank
between them rules out the second, and if the annotation leaves no list open it rules out the first.
Then the directives of the two are read as if each stood alone (`compose`), and only the offsets of
the second count from further ahead.

The condition about open lists is on the diagnostics, which is where a reader can see it: none of
them says that a list has no end. A list that has an end is read without looking at what stands
behind that (`closingFrom_append_right`), and a list that has none would swallow the blank and go
on.

The offsets are bytes, and a text that starts further ahead has the same attempts with all offsets
moved (`attemptsFrom_moved`).
-/

set_option autoImplicit false

namespace AltRender.Directive

open AltRender.Text

/-! ## Problems with and without an offset -/

/-- Whether an argument list does not end where it should. -/
def Problem.isUnclosed : Problem → Bool
  | .unbalanced _ | .unterminated _ => true
  | _ => false

/-- The problem of the same text when it starts `n` bytes further ahead. -/
def Problem.moved (n : Nat) : Problem → Problem
  | .unbalanced offset => .unbalanced (offset + n)
  | .unterminated offset => .unterminated (offset + n)
  | problem => problem

/-- Only lists that are not closed have a place. -/
theorem Problem.moved_of_closed {problem : Problem} (h : problem.isUnclosed = false) (n : Nat) :
    problem.moved n = problem := by
  cases problem with
  | unbalanced offset => exact absurd h (by simp [isUnclosed])
  | unterminated offset => exact absurd h (by simp [isUnclosed])
  | _ => rfl

theorem closed_of_readEntry {entry : List Char} {problem : Problem}
    (h : readEntry entry = .error problem) : problem.isUnclosed = false := by
  unfold readEntry at h
  split at h
  · split at h
    · exact absurd h (by simp)
    · obtain rfl := Except.error.inj h
      rfl
  · split at h
    · split at h
      · exact absurd h (by simp)
      · obtain rfl := Except.error.inj h
        rfl
    · obtain rfl := Except.error.inj h
      rfl
  · obtain rfl := Except.error.inj h
    rfl

/-- The fault of a list of attempts is the fault of one of them. -/
theorem exists_of_mapM_error {α β ε : Type} {f : α → Except ε β} {xs : List α} {e : ε}
    (h : xs.mapM f = .error e) : ∃ x ∈ xs, f x = .error e := by
  induction xs with
  | nil => exact absurd h (by simp [pure, Except.pure])
  | cons x xs ih =>
    rw [List.mapM_cons] at h
    cases hx : f x with
    | error e' =>
      rw [hx] at h
      obtain rfl := Except.error.inj h
      exact ⟨x, List.mem_cons_self, hx⟩
    | ok y =>
      cases hxs : xs.mapM f with
      | error e' =>
        rw [hx, hxs] at h
        obtain rfl := Except.error.inj h
        obtain ⟨z, hz, hfz⟩ := ih hxs
        exact ⟨z, List.mem_cons_of_mem x hz, hfz⟩
      | ok ys =>
        rw [hx, hxs] at h
        exact absurd h (by simp [bind, Except.bind, pure, Except.pure])

theorem closed_of_readArguments {cs : List Char} {problem : Problem}
    (h : readArguments cs = .error problem) : problem.isUnclosed = false := by
  unfold readArguments at h
  cases hall : (entries cs).mapM readEntry with
  | ok es =>
    rw [hall] at h
    exact absurd h (by simp [Except.map])
  | error problem' =>
    rw [hall] at h
    obtain rfl := Except.error.inj h
    obtain ⟨entry, -, hentry⟩ := exists_of_mapM_error hall
    exact closed_of_readEntry hentry

/-! ## Reading on behind a name -/

/-- **The ways to read on behind a name.** There is no list; or its end is not found; or it is found
and what stands in the list is refused; or it is accepted, and reading goes on behind it. -/
inductive ReadsTail (offset : Nat) : List Char → Except Problem Parameters × Nat × List Char → Prop
  | bare {cs : List Char} (hcs : cs.head? ≠ some '(') :
      ReadsTail offset cs (.ok Keyed.empty, offset, cs)
  | unclosed {list : List Char} {problem : Problem}
      (hclosing : closing offset list = .error problem) :
      ReadsTail offset ('(' :: list) (.error problem, offset, '(' :: list)
  | refused {list : List Char} {closed : Closed} {problem : Problem}
      (hclosing : closing offset list = .ok closed)
      (hread : readArguments closed.inside = .error problem) :
      ReadsTail offset ('(' :: list) (.error problem, offset, '(' :: list)
  | listed {list : List Char} {closed : Closed} {parameters : Parameters}
      (hclosing : closing offset list = .ok closed)
      (hread : readArguments closed.inside = .ok parameters) :
      ReadsTail offset ('(' :: list) (.ok parameters, offset + byteLength closed.inside + 2,
        closed.beyond)

theorem ReadsTail.eq {offset : Nat} {cs : List Char}
    {result : Except Problem Parameters × Nat × List Char} (h : ReadsTail offset cs result) :
    readTail offset cs = result := by
  cases h with
  | bare hcs =>
    unfold readTail
    split
    · exact absurd rfl hcs
    · rfl
  | unclosed hclosing => simp only [readTail, hclosing]
  | refused hclosing hread => simp only [readTail, hclosing, hread]
  | listed hclosing hread => simp only [readTail, hclosing, hread]

theorem readTail_cases {offset : Nat} {cs : List Char}
    {result : Except Problem Parameters × Nat × List Char} (h : readTail offset cs = result) :
    ReadsTail offset cs result := by
  subst h
  by_cases hlist : cs.head? = some '('
  · obtain ⟨list, rfl⟩ := List.head?_eq_some_iff.mp hlist
    cases hclosing : closing offset list with
    | error problem =>
      rw [(ReadsTail.unclosed hclosing).eq]
      exact .unclosed hclosing
    | ok closed =>
      cases hread : readArguments closed.inside with
      | error problem =>
        rw [(ReadsTail.refused hclosing hread).eq]
        exact .refused hclosing hread
      | ok parameters =>
        rw [(ReadsTail.listed hclosing hread).eq]
        exact .listed hclosing hread
  · rw [(ReadsTail.bare hlist).eq]
    exact .bare hlist

/-- Where reading goes on is that far behind the start. -/
theorem byteLength_readTail (offset : Nat) (cs : List Char) :
    (readTail offset cs).2.1 + byteLength (readTail offset cs).2.2 = offset + byteLength cs := by
  generalize hresult : readTail offset cs = result
  cases readTail_cases hresult with
  | bare | unclosed | refused => rfl
  | listed hclosing =>
    have happend := congrArg byteLength (closing_append hclosing)
    rw [byteLength_append, byteLength_cons] at happend
    rw [byteLength_cons]
    simp only [show ')'.utf8Size = 1 from rfl, show '('.utf8Size = 1 from rfl] at happend ⊢
    omega

/-! ## Text that starts further ahead -/

def Diagnostic.moved (n : Nat) (d : Diagnostic) : Diagnostic :=
  { d with problem := d.problem.moved n }

def Attempt.moved (n : Nat) (a : Attempt) : Attempt :=
  ⟨a.offset + n, a.name, a.outcome.mapError (Problem.moved n)⟩

theorem Attempt.spec?_moved (n : Nat) (a : Attempt) : (a.moved n).spec? = a.spec? := by
  obtain ⟨offset, name, outcome⟩ := a
  cases outcome <;> rfl

theorem Attempt.diagnostic?_moved (n : Nat) (a : Attempt) :
    (a.moved n).diagnostic? = a.diagnostic?.map (Diagnostic.moved n) := by
  obtain ⟨offset, name, outcome⟩ := a
  cases outcome <;> rfl

theorem closingFrom_moved (n list quote offset : Nat) (state : Quoting) (cs : List Char) :
    closingFrom (list + n) state (quote + n) (offset + n) cs =
      (closingFrom list state quote offset cs).mapError (Problem.moved n) := by
  induction cs generalizing state quote offset with
  | nil =>
    simp only [closingFrom]
    split <;> rfl
  | cons c rest ih =>
    have hquote : (if state = .outside ∧ c = '"' then offset + n else quote + n) =
        (if state = .outside ∧ c = '"' then offset else quote) + n := by
      split <;> rfl
    simp only [closingFrom]
    split
    · rfl
    · split
      · rfl
      · rw [hquote, Nat.add_right_comm, ih]
        cases closingFrom list (state.step c) (if state = .outside ∧ c = '"' then offset else quote)
          (offset + c.utf8Size) rest <;> rfl

theorem closing_moved (n list : Nat) (cs : List Char) :
    closing (list + n) cs = (closing list cs).mapError (Problem.moved n) := by
  rw [closing, closing, ← closingFrom_moved, Nat.add_right_comm]

theorem readTail_moved (n offset : Nat) (cs : List Char) :
    readTail (offset + n) cs =
      ((readTail offset cs).1.mapError (Problem.moved n), (readTail offset cs).2.1 + n,
        (readTail offset cs).2.2) := by
  generalize hresult : readTail offset cs = result
  cases readTail_cases hresult with
  | bare hcs => exact (ReadsTail.bare hcs).eq
  | unclosed hclosing => exact (ReadsTail.unclosed (by rw [closing_moved, hclosing]; rfl)).eq
  | @refused list closed problem hclosing hread =>
    have hmoved : closing (offset + n) list = .ok closed := by rw [closing_moved, hclosing]; rfl
    have hproblem := Problem.moved_of_closed (closed_of_readArguments hread) n
    rw [(ReadsTail.refused hmoved hread).eq]
    exact congrArg (fun problem => (Except.error problem, offset + n, '(' :: list)) hproblem.symm
  | @listed list closed parameters hclosing hread =>
    have hmoved : closing (offset + n) list = .ok closed := by rw [closing_moved, hclosing]; rfl
    have hplace : offset + n + byteLength closed.inside + 2 =
      offset + byteLength closed.inside + 2 + n := by omega
    rw [(ReadsTail.listed hmoved hread).eq, hplace]
    rfl

/-- **A text that starts further ahead has the same attempts,** further ahead. -/
theorem attemptsFrom_moved (n : Nat) (attached : Bool) (offset : Nat) (cs : List Char) :
    attemptsFrom attached (offset + n) cs =
      (attemptsFrom attached offset cs).map (Attempt.moved n) := by
  induction attached, offset, cs using attemptsFrom.induct with
  | case1 attached offset => rw [attemptsFrom, attemptsFrom, List.map_nil]
  | case2 attached offset c rest name h behind tail ih =>
    have hbehind : offset + n + 1 + name.length = behind + n := by
      simp only [behind]
      omega
    rw [attemptsFrom, attemptsFrom, if_pos h, if_pos h]
    simp only [List.map_cons]
    rw [show offset + n + 1 + (List.takeWhile isNameChar rest).length = behind + n from hbehind,
      readTail_moved,
      List.cons.injEq]
    exact ⟨rfl, ih⟩
  | case3 attached offset c rest name h ih =>
    rw [attemptsFrom, attemptsFrom, if_neg h, if_neg h, Nat.add_right_comm, ih]

/-! ## Text with something behind it -/

theorem isWordChar_of_isNameChar {c : Char} (h : isNameChar c = true) : isWordChar c = true := by
  rw [isWordChar, h]
  rfl

/-- Words are ASCII. -/
theorem toNat_lt_of_isWordChar {c : Char} (h : isWordChar c = true) : c.toNat < 128 := by
  simp only [isWordChar, isNameChar, isLetter, isDigit, Bool.or_eq_true, Bool.and_eq_true,
    decide_eq_true_eq, beq_iff_eq, Char.le_def, UInt32.le_iff_toNat_le] at h
  rcases h with ((((((⟨-, h⟩ | ⟨-, h⟩) | ⟨-, h⟩) | rfl) | rfl) | rfl) | rfl) | rfl
  · exact Nat.lt_of_le_of_lt h (by decide)
  · exact Nat.lt_of_le_of_lt h (by decide)
  · exact Nat.lt_of_le_of_lt h (by decide)
  all_goals decide

theorem utf8Size_of_isNameChar {c : Char} (h : isNameChar c = true) : c.utf8Size = 1 := by
  have hascii : c.val ≤ 0x7F :=
    UInt32.le_iff_toNat_le.mpr
      (Nat.le_of_lt_succ (toNat_lt_of_isWordChar (isWordChar_of_isNameChar h)))
  exact if_pos hascii

theorem byteLength_of_isNameChar {cs : List Char} (h : ∀ c ∈ cs, isNameChar c = true) :
    byteLength cs = cs.length := by
  induction cs with
  | nil => rfl
  | cons c cs ih =>
    rw [byteLength_cons, utf8Size_of_isNameChar (h c List.mem_cons_self),
      ih fun d hd => h d (List.mem_cons_of_mem c hd), List.length_cons, Nat.add_comm]

theorem unclosed_of_closingFrom {list quote offset : Nat} {state : Quoting} {cs : List Char}
    {problem : Problem} (h : closingFrom list state quote offset cs = .error problem) :
    problem.isUnclosed = true := by
  induction cs generalizing state quote offset with
  | nil =>
    obtain rfl := Except.error.inj h
    split <;> rfl
  | cons c rest ih =>
    simp only [closingFrom] at h
    split at h
    · exact absurd h (by simp)
    · split at h
      · obtain rfl := Except.error.inj h
        rfl
      · split at h
        · exact absurd h (by simp)
        · rename_i problem' hrest
          obtain rfl := Except.error.inj h
          exact ih hrest

/-- The search for the end of a list fails only if the list is not closed. -/
theorem unclosed_of_closing {list : Nat} {cs : List Char} {problem : Problem}
    (h : closing list cs = .error problem) : problem.isUnclosed = true :=
  unclosed_of_closingFrom h

/-- A list that is closed does not look at what stands behind it. -/
theorem closingFrom_append_right {list quote offset : Nat} {state : Quoting} {cs : List Char}
    {closed : Closed} (h : closingFrom list state quote offset cs = .ok closed) (ds : List Char) :
    closingFrom list state quote offset (cs ++ ds) =
      .ok { closed with beyond := closed.beyond ++ ds } := by
  induction cs generalizing state quote offset closed with
  | nil => exact absurd h (by simp [closingFrom])
  | cons c rest ih =>
    simp only [closingFrom] at h
    simp only [List.cons_append, closingFrom]
    split at h
    · rename_i hc
      obtain rfl := Except.ok.inj h
      rw [if_pos hc]
    · rename_i hc
      rw [if_neg hc]
      split at h
      · exact absurd h (by simp)
      · rename_i hc'
        rw [if_neg hc']
        split at h
        · rename_i closed' hrest
          obtain rfl := Except.ok.inj h
          rw [ih hrest]
        · exact absurd h (by simp)

/-- **A tail that is closed is read alike before a blank.** -/
theorem readTail_append {offset : Nat} {cs : List Char}
    (h : ∀ problem, (readTail offset cs).1 = .error problem → problem.isUnclosed = false)
    (ds : List Char) :
    readTail offset (cs ++ ' ' :: ds) =
      ((readTail offset cs).1, (readTail offset cs).2.1,
        (readTail offset cs).2.2 ++ ' ' :: ds) := by
  generalize hresult : readTail offset cs = result at h
  cases readTail_cases hresult with
  | bare hcs =>
    refine (ReadsTail.bare ?_).eq
    cases cs with
    | nil => simp
    | cons c list => exact hcs
  | unclosed hclosing =>
    -- The list would end at the earliest behind the blank, so it is one that is not closed.
    exact absurd (h _ rfl) (by rw [unclosed_of_closing hclosing]; decide)
  | refused hclosing hread =>
    exact (ReadsTail.refused (closingFrom_append_right hclosing _) hread).eq
  | listed hclosing hread => exact (ReadsTail.listed (closingFrom_append_right hclosing _) hread).eq

theorem takeWhile_append_of_neg {α : Type} {p : α → Bool} {x : α} (hx : p x = false)
    (xs ys : List α) : (xs ++ x :: ys).takeWhile p = xs.takeWhile p := by
  induction xs with
  | nil => simp [hx]
  | cons z xs ih => simp [List.takeWhile_cons, ih]

theorem dropWhile_append_of_neg {α : Type} {p : α → Bool} {x : α} (hx : p x = false)
    (xs ys : List α) : (xs ++ x :: ys).dropWhile p = xs.dropWhile p ++ x :: ys := by
  induction xs with
  | nil => simp [hx]
  | cons z xs ih =>
    simp only [List.cons_append, List.dropWhile_cons]
    split
    · exact ih
    · rfl

/-- **The attempts of a text before a blank are its own,** if its lists are closed; behind the blank
the text starts anew. -/
theorem attemptsFrom_append {attached : Bool} {offset : Nat} {cs : List Char}
    (h : ∀ a ∈ attemptsFrom attached offset cs, ∀ problem, a.outcome = .error problem →
      problem.isUnclosed = false)
    (ds : List Char) :
    attemptsFrom attached offset (cs ++ ' ' :: ds) =
      attemptsFrom attached offset cs ++ attemptsFrom false (offset + byteLength cs + 1) ds := by
  induction attached, offset, cs using attemptsFrom.induct with
  | case1 attached offset =>
    have hblank :
      ¬ (' ' = '@' ∧ (!attached) = true ∧ (!(ds.takeWhile isNameChar).isEmpty) = true) := by simp
    rw [List.nil_append, attemptsFrom, attemptsFrom, if_neg hblank]
    rfl
  | case2 attached offset c rest name hc behind tail ih =>
    rw [attemptsFrom, if_pos hc] at h ⊢
    obtain ⟨hhead, hrest⟩ := List.forall_mem_cons.mp h
    have hname : (rest ++ ' ' :: ds).takeWhile isNameChar = name :=
      takeWhile_append_of_neg (by decide) rest ds
    have hdrop := dropWhile_append_of_neg (p := isNameChar) (x := ' ') (by decide) rest ds
    have htail := readTail_append hhead ds
    -- The text up to the end of the tail has the length that the offsets say.
    have hlength : tail.2.1 + byteLength tail.2.2 = offset + byteLength (c :: rest) := by
      have hsplit :=
        congrArg byteLength (List.takeWhile_append_dropWhile (p := isNameChar) (l := rest))
      rw [byteLength_append, byteLength_of_isNameChar (List.all_eq_true.mp List.all_takeWhile)]
        at hsplit
      have hbehind := byteLength_readTail behind (rest.dropWhile isNameChar)
      rw [byteLength_cons, hc.1, show '@'.utf8Size = 1 from rfl]
      simp only [tail, behind, name] at hbehind ⊢
      omega
    have hcond : c = '@' ∧ (!attached) = true ∧
      (!((rest ++ ' ' :: ds).takeWhile isNameChar).isEmpty) = true := by
      rw [hname]
      exact hc
    rw [List.cons_append, attemptsFrom, if_pos hcond]
    simp only [hname, hdrop]
    rw [htail]
    simp only [List.cons_append]
    rw [List.cons.injEq]
    refine ⟨rfl, ?_⟩
    rw [← hlength]
    exact ih hrest
  | case3 attached offset c rest name hc ih =>
    have hcond : ¬ (c = '@' ∧ (!attached) = true ∧
      (!((rest ++ ' ' :: ds).takeWhile isNameChar).isEmpty) = true) := by
      rw [takeWhile_append_of_neg (by decide)]
      exact hc
    rw [attemptsFrom, if_neg hc] at h ⊢
    rw [List.cons_append, attemptsFrom, if_neg hcond, ih h, byteLength_cons, Nat.add_assoc offset]

/-! ## Annotations -/

theorem attempts_append {text : String}
    (h : ∀ d ∈ diagnostics text, d.problem.isUnclosed = false) (next : String) :
    attempts (text ++ " " ++ next) =
      attempts text ++ (attempts next).map (Attempt.moved (byteLength text.toList + 1)) := by
  have hclosed : ∀ a ∈ attempts text, ∀ problem, a.outcome = .error problem →
    problem.isUnclosed = false := by
    intro a ha problem hproblem
    refine h ⟨a.name, problem⟩ (List.mem_filterMap.mpr ⟨a, ha, ?_⟩)
    rw [Attempt.diagnostic?, hproblem]
  have hlist : (text ++ " " ++ next).toList = text.toList ++ ' ' :: next.toList := by
    simp [String.toList_append]
  rw [attempts, hlist, attemptsFrom_append hclosed, Nat.add_assoc, attemptsFrom_moved]
  rfl

theorem specs_append {text : String} (h : ∀ d ∈ diagnostics text, d.problem.isUnclosed = false)
    (next : String) : specs (text ++ " " ++ next) = specs text ++ specs next := by
  have hmoved : ∀ n, Attempt.spec? ∘ Attempt.moved n = Attempt.spec? :=
    fun n => funext (Attempt.spec?_moved n)
  rw [specs, attempts_append h, List.filterMap_append, List.filterMap_map, hmoved]
  rfl

theorem diagnostics_append {text : String}
    (h : ∀ d ∈ diagnostics text, d.problem.isUnclosed = false) (next : String) :
    diagnostics (text ++ " " ++ next) =
      diagnostics text ++
        (diagnostics next).map (Diagnostic.moved (byteLength text.toList + 1)) := by
  have hmoved : ∀ n, Attempt.diagnostic? ∘ Attempt.moved n = fun a =>
    a.diagnostic?.map (Diagnostic.moved n) :=
    fun n => funext (Attempt.diagnostic?_moved n)
  rw [diagnostics, attempts_append h, List.filterMap_append, List.filterMap_map, hmoved,
    ← List.map_filterMap]
  rfl

end AltRender.Directive

namespace AltRender.Registry

theorem resolve_append (r : Registry) (specs next : List Spec) :
    r.resolve (specs ++ next) = r.resolve specs ++ r.resolve next :=
  List.filterMap_append

end AltRender.Registry

namespace AltRender.Directive

open AltRender.Text

/-- **Annotations compose.** If an annotation leaves no argument list open, then what it asks for
and what is wrong with it stay the same when another one follows behind a blank, and so for that
other one, with its offsets moved behind the blank. So the chain of the two is the chain of the
first and, if that succeeds, the chain of the second on its result. -/
theorem compose {text : String} (h : ∀ d ∈ diagnostics text, d.problem.isUnclosed = false)
    (next : String) :
    specs (text ++ " " ++ next) = specs text ++ specs next ∧
      diagnostics (text ++ " " ++ next) =
        diagnostics text ++ (diagnostics next).map (Diagnostic.moved (byteLength text.toList + 1)) ∧
      ∀ (r : Registry) (frame : Frame) (theme : Option Theme),
        (r.chainOf (text ++ " " ++ next)).apply frame theme =
          ((r.chainOf text).apply frame theme).bind fun frame' =>
            (r.chainOf next).apply frame' theme := by
  refine ⟨specs_append h next, diagnostics_append h next, fun r frame theme => ?_⟩
  rw [Registry.chainOf, specs_append h, Registry.resolve_append, Chain.apply_append]
  rfl

/-- An argument list that is refused, a name that takes up the end, and a list that has no end
behind it. -/
theorem compose_refused :
    specs ("@tone(1=2=3) @invert" ++ " " ++ "(x) @dark(\"") =
      specs "@tone(1=2=3) @invert" ++ specs "(x) @dark(\"" ∧
      diagnostics ("@tone(1=2=3) @invert" ++ " " ++ "(x) @dark(\"") =
        [⟨"tone", .badValue "1=2=3" "1=2=3"⟩, ⟨"dark", .unterminated 31⟩] := by
  have h : diagnostics "@tone(1=2=3) @invert" = [⟨"tone", .badValue "1=2=3" "1=2=3"⟩] := by
    decide +kernel
  have hnext : diagnostics "(x) @dark(\"" = [⟨"dark", .unterminated 10⟩] := by decide +kernel
  have hclosed : ∀ d ∈ diagnostics "@tone(1=2=3) @invert", d.problem.isUnclosed = false := by
    rw [h]
    decide
  obtain ⟨hspecs, hdiagnostics, -⟩ := compose hclosed "(x) @dark(\""
  rw [h, hnext] at hdiagnostics
  exact ⟨hspecs, hdiagnostics⟩

end AltRender.Directive

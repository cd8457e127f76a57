import AltRender.Glob.Search
import AltRender.Proofs.Disk.Joining

/-!
# `Proofs/Glob/Literal` — patterns that stand for themselves

A text without the characters `?`, `*` and `[` is a pattern for itself, and in front of a pattern,
with a slash between them, it adds its pieces to those of the pattern (`ofText_join`).

What is in the way of this are the two things that a reader of patterns knows about its place. It
counts positions, for the faults it reports, and it knows whether a component has just begun, since
two stars are allowed there only. Neither matters for a text without these characters: it is read at
every position alike (`parseFrom_position`), and it leaves a component fresh if it ends in a slash
(`parseFrom_append`).

The slash at the start of an absolute path, and the one that may end a path, are pieces of their own
and are followed through (`cut_body`, `ofText_ok`).
-/

set_option autoImplicit false

namespace AltRender.Glob

open AltRender.Disk AltRender.Text

/-! ## Reading -/

/-- Whether a character stands for itself in a pattern. -/
def isLiteral (c : Char) : Bool :=
  c != '?' && c != '*' && c != '['

/-- The pattern for a text and nothing else. -/
def literal (text : List Char) : Pattern :=
  text.map .char

theorem literal?_literal (text : List Char) : (literal text).literal? = some text := by
  induction text with
  | nil => rfl
  | cons c text ih =>
    show (Pattern.literal? (literal text)).map (c :: ·) = some (c :: text)
    rw [ih]
    rfl

theorem literal_of_literal? {q : Pattern} {text : List Char} (h : q.literal? = some text) :
    q = literal text := by
  induction q generalizing text with
  | nil =>
    obtain rfl := Option.some.inj h
    rfl
  | cons t q ih =>
    cases t with
    | char c =>
      obtain ⟨rest, hrest, rfl⟩ := Option.map_eq_some_iff.mp h
      rw [ih hrest]
      rfl
    | any | anyRun | anyPath | within | outside => exact absurd h (by simp [Pattern.literal?])

theorem exists_of_map {q : Pattern} {f : Pattern → Pattern} {x : Except PatternFault Pattern}
    (h : x.map f = .ok q) : ∃ q', x = .ok q' ∧ f q' = q := by
  cases x with
  | error fault => exact absurd h (by simp [Except.map])
  | ok q' => exact ⟨q', rfl, Except.ok.inj h⟩

/-- Two stars are refused where no component starts. -/
theorem parseFrom_of_not_fresh {fresh : Bool} (n : Nat) {rest : List Char}
    (hrest : ∀ tail, rest = '*' :: tail → False) (hfresh : (!fresh) = true) :
    parseFrom fresh n ('*' :: '*' :: rest) = .error ⟨n - 1, .partOfComponent⟩ := by
  rcases rest with _ | ⟨c, rest⟩
  · rw [parseFrom, if_pos hfresh]
  · by_cases hslash : c = '/'
    · subst hslash
      rw [parseFrom, if_pos hfresh]
    · rw [parseFrom, if_pos hfresh]
      all_goals simp_all

/-- A class does not stand for itself. -/
theorem literal?_of_takeClass {cs : List Char} {t : Token} {n : Nat}
    (h : takeClass cs = some (t, n)) (q : Pattern) : Pattern.literal? (t :: q) = none := by
  unfold takeClass at h
  split at h
  · simp only at h
    split at h
    · obtain ⟨rfl, -⟩ := Prod.mk.inj (Option.some.inj h)
      rfl
    · exact absurd h (by simp)
  · exact absurd h (by simp)
  · simp only at h
    split at h
    · obtain ⟨rfl, -⟩ := Prod.mk.inj (Option.some.inj h)
      rfl
    · exact absurd h (by simp)
  · exact absurd h (by simp)

/-- What is read at one position is read at every other. -/
theorem parseFrom_position {fresh : Bool} {n : Nat} {text : List Char} {q : Pattern}
    (h : parseFrom fresh n text = .ok q) (m : Nat) : parseFrom fresh m text = .ok q := by
  -- The position is only ever reported, in a failure, so that a pattern that reads does so from
  -- any.
  induction fresh, n, text using parseFrom.induct generalizing m q with
  | case1 fresh n =>
    rw [parseFrom] at h ⊢
    exact h
  | case2 fresh n rest ih =>
    rw [parseFrom] at h ⊢
    obtain ⟨q, hq, rfl⟩ := exists_of_map h
    rw [ih hq]
    rfl
  | case3 fresh n tail =>
    rw [parseFrom] at h
    exact absurd h (by simp)
  | case4 fresh n rest hrest hfresh =>
    rw [parseFrom_of_not_fresh n hrest hfresh] at h
    exact absurd h (by simp)
  | case5 fresh n hfresh =>
    rw [parseFrom, if_neg hfresh] at h ⊢
    exact h
  | case6 fresh n hfresh rest hrest ih =>
    rw [parseFrom, if_neg hfresh] at h ⊢
    obtain ⟨q, hq, rfl⟩ := exists_of_map h
    simp only [ih hq]
    rfl
  | case7 fresh n rest hrest hfresh hnil hslash =>
    rw [parseFrom, if_neg hfresh] at h
    · exact absurd h (by simp)
    all_goals assumption
  | case8 fresh n rest htwo hone ih =>
    rw [parseFrom] at h ⊢
    · obtain ⟨q, hq, rfl⟩ := exists_of_map h
      rw [ih hq]
      rfl
    all_goals assumption
  | case9 fresh n rest hclass =>
    rw [parseFrom, hclass] at h
    exact absurd h (by simp)
  | case10 fresh n rest token k hclass ih =>
    rw [parseFrom, hclass] at h ⊢
    obtain ⟨q, hq, rfl⟩ := exists_of_map h
    simp only [ih hq]
    rfl
  | case11 fresh n c rest hany hthree htwo hone hclass ih =>
    rw [parseFrom] at h ⊢
    · obtain ⟨q, hq, rfl⟩ := exists_of_map h
      rw [ih hq]
      rfl
    all_goals assumption

/-- Only a text itself is read as a pattern that stands for it alone. -/
theorem literal?_of_parseFrom {fresh : Bool} {n : Nat} {text text' : List Char} {q : Pattern}
    (h : parseFrom fresh n text = .ok q) (hq : q.literal? = some text') : text' = text := by
  -- Only the end of the text and a plain character keep a pattern literal; every other case either
  -- fails or leaves a token that is not one.
  induction fresh, n, text using parseFrom.induct generalizing q text' with
  | case1 fresh n =>
    rw [parseFrom] at h
    obtain rfl := Except.ok.inj h
    exact (Option.some.inj hq).symm
  | case11 fresh n c rest hany hthree htwo hone hclass ih =>
    rw [parseFrom] at h
    · obtain ⟨q, hrest, rfl⟩ := exists_of_map h
      obtain ⟨text, htext, rfl⟩ := Option.map_eq_some_iff.mp hq
      rw [ih hrest htext]
    all_goals assumption
  | case2 fresh n rest ih =>
    rw [parseFrom] at h
    obtain ⟨q, -, rfl⟩ := exists_of_map h
    exact absurd hq (by simp [Pattern.literal?])
  | case3 fresh n tail =>
    rw [parseFrom] at h
    exact absurd h (by simp)
  | case4 fresh n rest hrest hfresh =>
    rw [parseFrom_of_not_fresh n hrest hfresh] at h
    exact absurd h (by simp)
  | case5 fresh n hfresh =>
    rw [parseFrom, if_neg hfresh] at h
    obtain rfl := Except.ok.inj h
    exact absurd hq (by simp [Pattern.literal?])
  | case6 fresh n hfresh rest hrest ih =>
    rw [parseFrom, if_neg hfresh] at h
    obtain ⟨q, -, rfl⟩ := exists_of_map h
    exact absurd hq (by simp [Pattern.literal?])
  | case7 fresh n rest hrest hfresh hnil hslash =>
    rw [parseFrom, if_neg hfresh] at h
    · exact absurd h (by simp)
    all_goals assumption
  | case8 fresh n rest htwo hone ih =>
    rw [parseFrom] at h
    · obtain ⟨q, -, rfl⟩ := exists_of_map h
      exact absurd hq (by simp [Pattern.literal?])
    all_goals assumption
  | case9 fresh n rest hclass =>
    rw [parseFrom, hclass] at h
    exact absurd h (by simp)
  | case10 fresh n rest token k hclass ih =>
    rw [parseFrom, hclass] at h
    obtain ⟨q, -, rfl⟩ := exists_of_map h
    rw [literal?_of_takeClass hclass] at hq
    exact absurd hq (by simp)

/-- A text that stands for itself is read as such, and leaves a component fresh if it ends in a
slash. -/
theorem parseFrom_append {text : List Char} (htext : ∀ c ∈ text, isLiteral c = true) (fresh : Bool)
    (n : Nat) (rest : List Char) :
    ∃ m, parseFrom fresh n (text ++ rest) =
      (parseFrom (text.getLast?.elim fresh (· == '/')) m rest).map (literal text ++ ·) := by
  induction text generalizing fresh n with
  | nil =>
    refine ⟨n, ?_⟩
    cases hrest : parseFrom fresh n rest <;> simp [hrest, literal, Except.map]
  | cons c text ih =>
    obtain ⟨hc, htext⟩ := List.forall_mem_cons.mp htext
    simp only [isLiteral, Bool.and_eq_true, bne_iff_ne] at hc
    obtain ⟨⟨hany, hrun⟩, hclass⟩ := hc
    obtain ⟨m, hm⟩ := ih htext (c == '/') (n + 1)
    refine ⟨m, ?_⟩
    have hfresh : (c :: text).getLast?.elim fresh (· == '/') =
      text.getLast?.elim (c == '/') (· == '/') := by
      rw [List.getLast?_cons]
      cases text.getLast? <;> rfl
    rw [List.cons_append, parseFrom, hm, hfresh]
    · generalize parseFrom _ m rest = result
      cases result <;> rfl
    all_goals simp_all

theorem parse_literal {text : List Char} (htext : ∀ c ∈ text, isLiteral c = true) :
    parse text = .ok (literal text) := by
  obtain ⟨m, hm⟩ := parseFrom_append htext true 0 []
  rw [List.append_nil, parseFrom] at hm
  rw [parse, hm]
  simp [Except.map]

/-! ## Texts for paths -/

theorem mem_cut_of_mem_piecesOf {text piece : List Char} (h : piece ∈ piecesOf text) :
    piece ∈ cut '/' text := by
  unfold piecesOf at h
  simp only at h
  split at h
  · exact List.dropLast_subset _ h
  · exact h

theorem piecesOf_of_cut {text rest : List Char} {front : List (List Char)}
    (h : cut '/' text = front ++ cut '/' rest) : piecesOf text = front ++ piecesOf rest := by
  have hne : cut '/' rest ≠ [] := cut_ne_nil _ _
  have hlast : (front ++ cut '/' rest).getLast? = (cut '/' rest).getLast? := by
    rw [List.getLast?_append, List.getLast?_eq_some_getLast hne]
    rfl
  simp only [piecesOf, h, hlast, List.dropLast_append_of_ne_nil hne]
  split <;> rfl

theorem mapM_parse_literal {pieces : List (List Char)}
    (h : ∀ piece ∈ pieces, ∀ c ∈ piece, isLiteral c = true) :
    pieces.mapM parse = .ok (pieces.map literal) := by
  induction pieces with
  | nil => rfl
  | cons piece pieces ih =>
    obtain ⟨hpiece, hpieces⟩ := List.forall_mem_cons.mp h
    rw [List.mapM_cons, parse_literal hpiece, ih hpieces]
    rfl

/-- Pieces that stand for themselves are read in front of those that are read already. -/
theorem mapM_parse_piecesOf {text rest : List Char} {front : List (List Char)}
    {components : List Pattern} (hcut : cut '/' text = front ++ cut '/' rest)
    (hfront : ∀ piece ∈ front, ∀ c ∈ piece, isLiteral c = true)
    (h : (piecesOf rest).mapM parse = .ok components) :
    (piecesOf text).mapM parse = .ok (front.map literal ++ components) := by
  rw [piecesOf_of_cut hcut, List.mapM_append, mapM_parse_literal hfront, h]
  rfl

/-- Without the slash at its start, if it has one, a text has the same pieces but for the empty one
in front of the slash. -/
theorem cut_body {text first : List Char} {rest : List (List Char)}
    (h : cut '/' text = first :: rest) :
    cut '/' (if text.head? == some '/' then text.drop 1 else text) =
      if text.head? == some '/' then rest else first :: rest := by
  split
  · rename_i htop
    obtain ⟨tail, rfl⟩ := List.head?_eq_some_iff.mp (beq_iff_eq.mp htop)
    rw [cut, if_pos rfl] at h
    exact (List.cons.inj h).2
  · exact h

/-- Behind a text that stands for itself and ends in a slash, a pattern is a pattern still. -/
theorem exists_parse_append {lead rest : List Char} {q : Pattern}
    (hlead : ∀ c ∈ lead, isLiteral c = true) (hslash : lead.getLast? = some '/')
    (h : parse rest = .ok q) : ∃ q', parse (lead ++ rest) = .ok q' := by
  obtain ⟨m, hm⟩ := parseFrom_append hlead true 0 rest
  rw [hslash] at hm
  have hrest : parseFrom (Option.elim (some '/') true (· == '/')) m rest = .ok q :=
    parseFrom_position h m
  rw [hrest] at hm
  exact ⟨literal lead ++ q, by rw [parse, hm]; rfl⟩

/-- What a relative text that is not empty is read as. -/
theorem ofText_ok {pattern : String} {search : Search} (hne : pattern.toList ≠ [])
    (hrelative : pattern.toList.head? ≠ some '/') (h : Search.ofText pattern = .ok search) :
    (∃ q, parse pattern.toList = .ok q) ∧
    (piecesOf pattern.toList).mapM parse = .ok search.components ∧
      search.scope = ⟨"."⟩ ∧ search.directoriesOnly = (pattern.toList.getLast? == some '/') := by
  have htop : (pattern.toList.head? == some '/') = false := by simpa using hrelative
  have hempty : pattern.toList.isEmpty = false := by simpa using hne
  unfold Search.ofText at h
  cases hparse : parse pattern.toList with
  | error fault =>
    simp only [hparse, bind, Except.bind] at h
    exact absurd h (by simp)
  | ok q =>
    simp only [hparse, htop, hempty, bind, Except.bind, Bool.false_eq_true, if_false] at h
    cases hpieces : (piecesOf pattern.toList).mapM parse with
    | error fault =>
      rw [hpieces] at h
      exact absurd h (by simp)
    | ok components =>
      rw [hpieces] at h
      obtain rfl := Except.ok.inj h
      exact ⟨⟨q, rfl⟩, rfl, rfl, rfl⟩

/-- What a text is read as that stands for itself and has no empty piece. -/
theorem ofText_literal {text : String} (htext : ∀ c ∈ text.toList, isLiteral c = true)
    (hgap : [] ∉ cut '/' text.toList) :
    Search.ofText text = .ok ⟨⟨"."⟩, (cut '/' text.toList).map literal, false⟩ := by
  obtain ⟨first, rest, hcut⟩ := (⟨text⟩ : Path).pieces_eq_cons
  have hcut : cut '/' text.toList = first :: rest := hcut
  have htop : (text.toList.head? == some '/') = false := by
    rw [Bool.eq_false_iff]
    intro habs
    exact hgap
      (by rw [hcut, (Path.first_of_isAbsolute (p := ⟨text⟩) hcut habs)]; exact List.mem_cons_self)
  have hnonempty : text.toList.isEmpty = false := by
    rw [List.isEmpty_eq_false_iff]
    intro hnil
    exact hgap (by rw [hnil]; exact List.mem_singleton_self _)
  have hlast : (text.toList.getLast? == some '/') = false := by
    rw [beq_eq_false_iff_ne]
    intro hends
    obtain ⟨front, hfront⟩ := List.getLast?_eq_some_iff.mp hends
    exact hgap
      (by rw [hfront, cut_append_cons]; exact List.mem_append_right _ (List.mem_singleton_self _))
  have hpieces : piecesOf text.toList = cut '/' text.toList := by
    rw [piecesOf]
    exact if_neg fun hnil => hgap (List.mem_of_getLast? hnil)
  have hall : ∀ piece ∈ cut '/' text.toList, ∀ c ∈ piece, isLiteral c = true :=
    fun piece hpiece c hc => htext c (mem_of_mem_piece hpiece hc)
  unfold Search.ofText
  simp only [parse_literal htext, htop, hnonempty, hlast, bind, Except.bind, Bool.false_eq_true,
    if_false, hpieces, mapM_parse_literal hall]

/-- Whatever stands for itself can be read. -/
theorem exists_ofText {text : String} (h : ∀ c ∈ text.toList, isLiteral c = true) :
    ∃ search, Search.ofText text = .ok search ∧
      search.directoriesOnly = (text.toList.getLast? == some '/') := by
  have hpieces : ∀ cs : List Char, (∀ c ∈ cs, isLiteral c = true) →
    ∀ piece ∈ piecesOf cs, ∀ c ∈ piece, isLiteral c = true :=
    fun cs hcs piece hpiece c hc => hcs c (mem_of_mem_piece (mem_cut_of_mem_piecesOf hpiece) hc)
  have hbody : ∀ c ∈ (if text.toList.head? == some '/' then text.toList.drop 1 else text.toList),
    isLiteral c = true := by
    split
    · exact fun c hc => h c (List.mem_of_mem_drop hc)
    · exact h
  have hread := mapM_parse_literal (hpieces _ hbody)
  unfold Search.ofText
  simp only [parse_literal h, bind, Except.bind]
  rw [hread]
  exact ⟨_, rfl, rfl⟩

/-- Where a search for a path starts. -/
def scopeOf (p : Path) : Path :=
  if p.isAbsolute then ⟨"/"⟩ else ⟨"."⟩

/-- What stands in front of a relative path that is put behind one that stands for itself. -/
theorem exists_lead_join {root p : Path} (hroot : ∀ c ∈ root.text.toList, isLiteral c = true)
    (hroot' : root.text.toList ≠ []) (hrelative : p.isAbsolute = false) :
    ∃ lead, (root.join p).text.toList = lead ++ p.text.toList ∧ (∀ c ∈ lead, isLiteral c = true) ∧
      lead.getLast? = some '/' := by
  rcases root.toList_join_relative hrelative with ⟨hends, htext⟩ | ⟨-, htext⟩
  · exact ⟨root.text.toList, htext, hroot, hends.resolve_left hroot'⟩
  · refine ⟨root.text.toList ++ ['/'], by rw [htext]; simp, ?_, by simp⟩
    intro c hc
    rcases List.mem_append.mp hc with hc | hc
    · exact hroot c hc
    · obtain rfl := List.mem_singleton.mp hc
      decide

/-- **A path that stands for itself adds its pieces to a pattern behind it.** -/
theorem ofText_join {root : Path} {pattern : String} {search : Search}
    (hroot : ∀ c ∈ root.text.toList, isLiteral c = true) (hroot' : root.text.toList ≠ [])
    (hne : pattern.toList ≠ []) (hrelative : pattern.toList.head? ≠ some '/')
    (h : Search.ofText pattern = .ok search) :
    ∃ first front, root.components =
      leadOf first (front ++ cut '/' pattern.toList) ++ front.filterMap Path.component? ∧
      (root.isAbsolute = true ↔ first = []) ∧
      (first :: front).filter (fun piece => !piece.isEmpty) = root.steps ∧
      root.trunk = first :: front ∧
      Search.ofText (root.join ⟨pattern⟩).text =
        .ok ⟨scopeOf root,
          ((if root.isAbsolute then front else first :: front).map literal) ++ search.components,
          search.directoriesOnly⟩ := by
  have hpath : (⟨pattern⟩ : Path).isAbsolute = false := by simpa [Path.isAbsolute] using hrelative
  obtain ⟨⟨q, hq⟩, hcomponents, -, honly⟩ := ofText_ok hne hrelative h
  obtain ⟨first, front, hjoined, hlead, hpieces⟩ := Path.exists_front_join hroot' hpath
  have hrest : front ++ (⟨pattern⟩ : Path).pieces ≠ [] := by
    rw [ne_eq, List.append_eq_nil_iff]
    exact fun hnil => cut_ne_nil _ _ hnil.2
  have habs : root.isAbsolute = true ↔ first = [] := by
    rw [← Path.isAbsolute_join_relative root hpath, Path.isAbsolute_iff hjoined]
    exact and_iff_left hrest
  refine ⟨first, front, hlead, habs, ?_, hpieces, ?_⟩
  · have hsteps := Path.steps_join root hpath
    rw [Path.steps, hjoined, ← List.cons_append, List.filter_append] at hsteps
    exact List.append_cancel_right hsteps
  -- The whole text is a pattern: the root stands for itself, and a component starts behind its
  -- slash.
  obtain ⟨lead, htext, hliteral, hslash⟩ := exists_lead_join hroot hroot' hpath
  obtain ⟨whole, hwhole⟩ := exists_parse_append hliteral hslash hq
  rw [← htext] at hwhole
  have hlast : ((root.join ⟨pattern⟩).text.toList.getLast? == some '/') =
    search.directoriesOnly := by
    rw [htext, honly, List.getLast?_append, List.getLast?_eq_some_getLast hne]
    rfl
  have htop : ((root.join ⟨pattern⟩).text.toList.head? == some '/') = root.isAbsolute :=
    Path.isAbsolute_join_relative root hpath
  -- Its components are the pieces of the root and those of the pattern.
  have hcut := cut_body hjoined
  rw [htop, ← List.cons_append, ← apply_ite (· ++ _)] at hcut
  have hfront : ∀ piece ∈ (if root.isAbsolute then front else first :: front), ∀ c ∈ piece,
    isLiteral c = true := by
    intro piece hpiece c hc
    have hmem : piece ∈ first :: front := by
      split at hpiece
      · exact List.mem_cons_of_mem _ hpiece
      · exact hpiece
    exact hroot c (mem_of_mem_piece (root.trunk_sublist.subset (hpieces ▸ hmem)) hc)
  have hread := mapM_parse_piecesOf hcut hfront hcomponents
  have hbody : (if root.isAbsolute then (root.join ⟨pattern⟩).text.toList.drop 1
      else (root.join ⟨pattern⟩).text.toList).isEmpty = false := by
    rw [List.isEmpty_eq_false_iff]
    intro hnil
    rw [hnil] at hcut
    rcases List.append_eq_singleton_iff.mp hcut.symm with ⟨-, hone⟩ | ⟨-, hnone⟩
    · have hglue := glue_cut '/' pattern.toList
      rw [show cut '/' pattern.toList = [[]] from hone] at hglue
      exact hne hglue.symm
    · exact cut_ne_nil _ _ hnone
  unfold Search.ofText
  simp only [hwhole, htop, bind, Except.bind, hbody, hlast, Bool.false_eq_true, if_false]
  rw [hread]
  rfl

end AltRender.Glob

import AltRender.Proofs.Disk.Below

/-!
# `Proofs/Disk/Joining` — a relative path behind another one

What a relative path adds to a path that is not empty is what it says itself: its pieces, its
components, and a walk along them (`approach_join`). Taken away again it is what it was, but for
meaningless pieces at either end (`Path.stripLeading?_join`), and this does not depend on how the
leading directory is spelled.

The joined text needs a slash between its parts or does not (`Path.gap`), and this is the only thing
that the first part decides. All else is the second part's. So joining is associative
(`Path.join_join`), whichever parts are absolute, and walks can be put together: first to where the
leading path leads, then on from there.

A path that ends in a slash is a path to a directory. What is known of a file that was found is
therefore also that its path ends in a name (`getLast?_of_isFile`).
-/

set_option autoImplicit false

namespace AltRender.Disk

open AltRender.Text

/-! ## Pieces and components -/

/-- What is in a piece is in the text. -/
theorem mem_of_mem_piece {d c : Char} {cs piece : List Char} (h : piece ∈ cut d cs)
    (hc : c ∈ piece) :
    c ∈ cs := by
  induction cs generalizing piece with
  | nil =>
    obtain rfl := List.mem_singleton.mp h
    exact hc
  | cons c' cs ih =>
    rw [cut] at h
    split at h
    · rcases List.mem_cons.mp h with rfl | h
      · exact absurd hc List.not_mem_nil
      · exact List.mem_cons_of_mem _ (ih h hc)
    · cases hcut : cut d cs with
      | nil => exact absurd hcut (cut_ne_nil d cs)
      | cons first rest =>
        rw [hcut] at h ih
        rcases List.mem_cons.mp h with rfl | h
        · rcases List.mem_cons.mp hc with rfl | hc
          · exact List.mem_cons_self
          · exact List.mem_cons_of_mem _ (ih List.mem_cons_self hc)
        · exact List.mem_cons_of_mem _ (ih (List.mem_cons_of_mem _ h) hc)

namespace Path

variable {p q root : Path}

/-- The pieces of a path that are not empty. -/
def steps (p : Path) : List (List Char) :=
  p.pieces.filter fun piece => !piece.isEmpty

theorem steps_join (p : Path) (hq : q.isAbsolute = false) :
    (p.join q).steps = p.steps ++ q.steps := by
  rcases p.pieces_join_relative hq with ⟨front, hpieces, hjoined⟩ | ⟨-, hjoined⟩
  · rw [steps, steps, steps, hpieces, hjoined, List.filter_append, List.filter_append]
    simp
  · rw [steps, steps, steps, hjoined, List.filter_append]

theorem isAbsolute_join_relative (p : Path) (hq : q.isAbsolute = false) :
    (p.join q).isAbsolute = p.isAbsolute := by
  rw [isAbsolute, isAbsolute]
  rcases p.toList_join_relative hq with ⟨hempty | hslash, htext⟩ | ⟨⟨hne, -⟩, htext⟩
  · rw [htext, hempty, List.nil_append]
    exact hq
  · obtain ⟨front, hfront⟩ := List.getLast?_eq_some_iff.mp hslash
    rw [htext, hfront, List.append_assoc, List.head?_append, List.head?_append]
    cases front <;> rfl
  · obtain ⟨c, cs, hcs⟩ := List.exists_cons_of_ne_nil hne
    rw [htext, hcs]
    rfl

/-- A joined path ends as its second part does. -/
theorem getLast?_pieces_join (p : Path) (hq : q.isAbsolute = false) :
    (p.join q).pieces.getLast? = q.pieces.getLast? := by
  have hne : q.pieces ≠ [] := cut_ne_nil _ _
  rcases p.pieces_join_relative hq with ⟨front, -, hjoined⟩ | ⟨-, hjoined⟩ <;>
    rw [hjoined, List.getLast?_append, List.getLast?_eq_some_getLast hne] <;> rfl

/-- A path does not end in a slash if its last piece is not empty. -/
theorem not_endsInSlash {last : List Char} (h : p.pieces.getLast? = some last) (hne : last ≠ []) :
    p.text.toList.getLast? ≠ some '/' := by
  intro hends
  obtain ⟨front, hfront⟩ := List.getLast?_eq_some_iff.mp hends
  rw [pieces, hfront, cut_append_cons, List.getLast?_append] at h
  exact hne (Option.some.inj h).symm

/-- The pieces of a path, an empty one at the end aside. -/
def trunk (p : Path) : List (List Char) :=
  if p.pieces.getLast? = some [] then p.pieces.dropLast else p.pieces

theorem trunk_sublist (p : Path) : p.trunk.Sublist p.pieces := by
  unfold trunk
  split
  · exact List.dropLast_sublist _
  · exact List.Sublist.refl _

theorem getLast?_cut {d : Char} {cs : List Char} (hne : cs ≠ []) (hlast : cs.getLast? ≠ some d) :
    (cut d cs).getLast? ≠ some [] := by
  obtain ⟨c, front, rfl⟩ : ∃ c front, cs = front ++ [c] :=
    ⟨_, List.getLast?_eq_some_iff.mp (List.getLast?_eq_some_getLast hne)⟩
  have hc : c ≠ d := fun hc => hlast (by rw [List.getLast?_concat, hc])
  clear hne hlast
  induction front with
  | nil => simp [cut, hc]
  | cons c' front ih =>
    rw [List.cons_append, cut]
    cases hcut : cut d (front ++ [c]) with
    | nil => exact absurd hcut (cut_ne_nil _ _)
    | cons piece pieces =>
      rw [hcut] at ih
      split
      · rwa [List.getLast?_cons_cons]
      · cases pieces with
        | nil => simp
        | cons next pieces => rwa [List.getLast?_cons_cons] at ih ⊢

/-- A joined path starts with the trunk of the path before it. -/
theorem pieces_join_trunk (hp : p.text.toList ≠ []) (hq : q.isAbsolute = false) :
    (p.join q).pieces = p.trunk ++ q.pieces := by
  rcases p.toList_join_relative hq with ⟨hends, htext⟩ | ⟨⟨-, hends⟩, htext⟩
  · obtain ⟨front, hfront⟩ := List.getLast?_eq_some_iff.mp (hends.resolve_left hp)
    have hpieces : p.pieces = cut '/' front ++ [[]] := by
      rw [pieces, hfront, cut_append_cons]
      rfl
    rw [trunk, hpieces, if_pos List.getLast?_concat, List.dropLast_concat, pieces, htext, hfront,
      List.append_assoc, List.singleton_append, cut_append_cons]
    rfl
  · rw [trunk, if_neg (show p.pieces.getLast? ≠ some [] from getLast?_cut hp hends), pieces, htext,
      cut_append_cons]
    rfl

theorem exists_front_join (hp : p.text.toList ≠ []) (hq : q.isAbsolute = false) :
    ∃ first front, (p.join q).pieces = first :: (front ++ q.pieces) ∧
      p.components = leadOf first (front ++ q.pieces) ++ front.filterMap component? ∧
      p.trunk = first :: front := by
  -- Joining puts a slash between the two, unless the first ends with one; `trunk` is what both have
  -- in common.
  have hpieces : p.pieces ≠ [[]] := by
    intro hnil
    have hglue := glue_cut '/' p.text.toList
    rw [show cut '/' p.text.toList = [[]] from hnil] at hglue
    exact hp hglue.symm
  have hqne : q.pieces ≠ [] := cut_ne_nil _ _
  obtain ⟨first, front, htrunk⟩ : ∃ first front, p.trunk = first :: front := by
    refine List.exists_cons_of_ne_nil fun hnil => ?_
    unfold trunk at hnil
    split at hnil
    · rename_i hlast
      obtain ⟨front, hfront⟩ := List.getLast?_eq_some_iff.mp hlast
      rw [hfront, List.dropLast_concat] at hnil
      exact hpieces (by rw [hfront, hnil, List.nil_append])
    · exact cut_ne_nil _ _ hnil
  refine ⟨first, front, by rw [pieces_join_trunk hp hq, htrunk, List.cons_append], ?_, htrunk⟩
  unfold trunk at htrunk
  split at htrunk
  · rename_i hlast
    obtain ⟨lead, hlead⟩ := List.getLast?_eq_some_iff.mp hlast
    rw [hlead, List.dropLast_concat] at htrunk
    rw [htrunk, List.cons_append] at hlead
    have hsame : leadOf first (front ++ q.pieces) = leadOf first (front ++ [[]]) :=
      leadOf_eq (by simp [hqne])
    rw [components_eq hlead, hsame, List.filterMap_append]
    simp [component?_nil]
  · have hsame : leadOf first (front ++ q.pieces) = leadOf first front := by
      refine leadOf_eq ?_
      rintro rfl
      have hrest : front ≠ [] := by
        rintro rfl
        exact hpieces htrunk
      simp [hrest]
    rw [components_eq htrunk, hsame]

/-- **A relative path adds its components to a path that is not empty,** the dot at its start
aside. -/
theorem components_join_of_ne_nil (hp : p.text.toList ≠ []) (hq : q.isAbsolute = false) :
    (p.join q).components = p.components ++ q.pieces.filterMap component? := by
  obtain ⟨first, front, hjoined, hcomponents, -⟩ := exists_front_join hp hq
  rw [components_eq hjoined, hcomponents, List.filterMap_append, List.append_assoc]

theorem components_ne_nil (hp : p.text.toList ≠ []) : p.components ≠ [] := by
  intro hnil
  have hglue := glue_cut '/' p.text.toList
  rw [show cut '/' p.text.toList = [[]] from pieces_of_components hnil] at hglue
  exact hp hglue.symm

theorem eq_of_toList (h : p.text.toList = q.text.toList) : p = q :=
  congrArg mk (String.toList_inj.mp h)

/-- What stands between a path and a relative one behind it: a slash, unless there is no need of
one. -/
def gap (p : Path) : List Char :=
  if p.text.toList = [] ∨ p.text.toList.getLast? = some '/' then [] else ['/']

theorem toList_join_gap (p : Path) (hq : q.isAbsolute = false) :
    (p.join q).text.toList = p.text.toList ++ (p.gap ++ q.text.toList) := by
  rcases p.toList_join_relative hq with ⟨hends, htext⟩ | ⟨hends, htext⟩
  · rw [htext, gap, if_pos hends, List.nil_append]
  · rw [htext, gap, if_neg (not_or.mpr hends)]
    rfl

/-- A joined path needs a slash behind it if its second part does: the one between the parts ends
the path when that is empty. -/
theorem gap_join (p : Path) (hq : q.isAbsolute = false) : (p.join q).gap = q.gap := by
  unfold gap
  rw [toList_join_gap p hq]
  by_cases hnil : q.text.toList = []
  · rw [hnil, List.append_nil]
    by_cases hends : p.text.toList = [] ∨ p.text.toList.getLast? = some '/'
    · rw [gap, if_pos hends, List.append_nil, if_pos hends, if_pos (.inl rfl)]
    · rw [gap, if_neg hends, if_pos (.inr (by simp)), if_pos (.inl rfl)]
  · have hlast : (p.text.toList ++ (p.gap ++ q.text.toList)).getLast? = q.text.toList.getLast? := by
      simp [List.getLast?_append, List.getLast?_eq_some_getLast hnil]
    simp only [hlast, List.append_eq_nil_iff, hnil, and_false]

/-- **Relative paths can be joined in any order.** -/
theorem join_assoc {r : Path} (p : Path) (hq : q.isAbsolute = false) (hr : r.isAbsolute = false) :
    (p.join q).join r = p.join (q.join r) := by
  have hqr : (q.join r).isAbsolute = false := (isAbsolute_join_relative q hr).trans hq
  refine eq_of_toList ?_
  rw [toList_join_gap _ hr, toList_join_gap p hq, toList_join_gap p hqr, toList_join_gap q hr,
    gap_join p hq]
  simp only [List.append_assoc]

/-- An absolute path stays as it is behind another one. -/
theorem join_of_isAbsolute (p : Path) (hq : q.isAbsolute = true) : p.join q = q :=
  if_pos hq

/-- **Paths can be joined in any order,** whether they are relative or not. -/
theorem join_join (p q r : Path) : (p.join q).join r = p.join (q.join r) := by
  cases hr : r.isAbsolute with
  | true => rw [join_of_isAbsolute _ hr, join_of_isAbsolute q hr, join_of_isAbsolute p hr]
  | false =>
    cases hq : q.isAbsolute with
    | true =>
      rw [join_of_isAbsolute p hq, join_of_isAbsolute p ((isAbsolute_join_relative q hr).trans hq)]
    | false => exact join_assoc p hq hr

/-- An empty path behind another one leaves a slash at its end. -/
theorem endsInSlash_join_empty (hp : p.text.toList ≠ []) :
    (p.join ⟨""⟩).text.toList.getLast? = some '/' := by
  rw [toList_join_gap p (by decide), gap]
  split
  · rename_i hends
    simpa using hends.resolve_left hp
  · simp

theorem join_empty_left (hq : q.isAbsolute = false) : (⟨""⟩ : Path).join q = q :=
  eq_of_toList (toList_join_gap _ hq)

/-- A path with another one behind it is longer by that and by a slash at most. -/
theorem byteLength_join_le (p : Path) (hq : q.isAbsolute = false) :
    byteLength (p.join q).text.toList ≤
      byteLength p.text.toList + byteLength q.text.toList + 1 := by
  have hgap : byteLength p.gap ≤ 1 := by
    unfold gap
    split
    · exact Nat.zero_le 1
    · exact Nat.le_refl 1
  rw [toList_join_gap p hq, byteLength_append, byteLength_append]
  omega

theorem mem_join (p : Path) (hq : q.isAbsolute = false) {c : Char}
    (hc : c ∈ (p.join q).text.toList) :
    c ∈ p.text.toList ∨ c = '/' ∨ c ∈ q.text.toList := by
  rw [toList_join_gap p hq, List.mem_append, List.mem_append] at hc
  refine hc.imp_right fun hc => hc.imp_left fun hgap => ?_
  unfold gap at hgap
  split at hgap
  · exact absurd hgap List.not_mem_nil
  · exact List.mem_singleton.mp hgap

/-! ## Leading directories -/

/-- Pieces with as many components as are dropped are dropped, and what has no meaning behind
them. -/
theorem dropComponents_append {front : List (List Char)} {n : Nat}
    (h : (front.filterMap component?).length = n) (rest : List (List Char)) :
    dropComponents n (front ++ rest) = rest.dropWhile isRedundant := by
  -- By the pieces in front: one without a meaning is dropped and not counted, any other is counted.
  induction front generalizing n with
  | nil =>
    obtain rfl : n = 0 := h.symm
    rfl
  | cons piece front ih =>
    cases hredundant : isRedundant piece with
    | true =>
      have hnone : component? piece = none := by rw [component?, if_pos hredundant]
      rw [List.filterMap_cons_none hnone] at h
      have hskip : dropComponents n (piece :: front ++ rest) =
        dropComponents n (front ++ rest) := by
        cases n with
        | zero => simp [dropComponents, hredundant]
        | succ n => simp [dropComponents, hredundant]
      rw [hskip, ih h]
    | false =>
      obtain ⟨c, hc⟩ := exists_component?_of_not_redundant hredundant
      rw [List.filterMap_cons_some hc] at h
      obtain ⟨n, rfl⟩ : ∃ m, n = m + 1 := ⟨_, h.symm⟩
      have hstep : dropComponents (n + 1) (piece :: front ++ rest) =
        dropComponents n (front ++ rest) := by
        simp [dropComponents, hredundant]
      rw [hstep, ih (by simpa using h)]

/-- **What follows a directory is what was put behind it,** however the directory is spelled. -/
theorem stripLeading?_join (hp : p.text.toList ≠ []) (hroot : p.components = root.components)
    (hq : q.isAbsolute = false) :
    (p.join q).stripLeading? root =
      some (ofPieces (dropRedundantEnd (q.pieces.dropWhile isRedundant))) := by
  have hprefix : root.components.isPrefixOf (p.join q).components = true := by
    rw [components_join_of_ne_nil hp hq, hroot]
    exact List.isPrefixOf_iff_prefix.mpr (List.prefix_append _ _)
  obtain ⟨first, front, hjoined, hcomponents, -⟩ := exists_front_join hp hq
  have hne := components_ne_nil hp
  rw [hcomponents] at hroot hne
  rw [← hroot] at hprefix
  unfold stripLeading?
  simp only [← hroot, hprefix, Bool.not_true, Bool.false_eq_true, if_false, hjoined]
  have habs : (p.join q).isAbsolute = true ↔ first = [] ∧ front ++ q.pieces ≠ [] :=
    isAbsolute_iff hjoined
  have hqne : front ++ q.pieces ≠ [] := by
    rw [ne_eq, List.append_eq_nil_iff]
    exact fun h => cut_ne_nil _ _ h.2
  -- Whether the first piece is a component of its own decides how many pieces the stripping drops.
  by_cases hlead : first = [] ∨ first = ['.']
  · -- The first component is not that of a piece, so the pieces behind it are counted.
    have hone : (leadOf first (front ++ q.pieces)).length = 1 := by
      rcases hlead with rfl | rfl
      · rw [leadOf, if_pos rfl, if_neg hqne]
        rfl
      · rfl
    have hstart : ((p.join q).isAbsolute || decide (first = ['.'])) = true := by
      rcases hlead with rfl | rfl
      · rw [habs.mpr ⟨rfl, hqne⟩, Bool.true_or]
      · simp
    have hlength : (leadOf first (front ++ q.pieces) ++ front.filterMap component?).length =
        (front.filterMap component?).length + 1 := by
      rw [List.length_append, hone, Nat.add_comm]
    rw [hlength]
    simp only [hstart, if_true, dropComponents_append rfl]
  · obtain ⟨hempty, hdot⟩ := not_or.mp hlead
    have hstart : ((p.join q).isAbsolute || decide (first = ['.'])) = false := by
      rw [Bool.or_eq_false_iff]
      exact ⟨Bool.eq_false_iff.mpr fun h => hempty (habs.mp h).1, by simpa using hdot⟩
    have hcount : leadOf first (front ++ q.pieces) ++ front.filterMap component? =
        (first :: front).filterMap component? := by
      rw [leadOf, if_neg hempty, if_neg hdot, List.filterMap_cons]
      cases component? first <;> rfl
    rw [hcount] at hne ⊢
    obtain ⟨n, hn⟩ : ∃ n, ((first :: front).filterMap component?).length = n + 1 :=
      ⟨_, (Nat.succ_pred_eq_of_pos (List.length_pos_iff.mpr hne)).symm⟩
    rw [hn]
    simp only [hstart, Bool.false_eq_true, if_false]
    rw [← List.cons_append, dropComponents_append hn]

theorem dropRedundantEnd_of_getLast? {pieces : List (List Char)} {last : List Char}
    (h : pieces.getLast? = some last) (hlast : isRedundant last = false) :
    dropRedundantEnd pieces = pieces := by
  obtain ⟨front, rfl⟩ := List.getLast?_eq_some_iff.mp h
  rw [dropRedundantEnd, List.reverse_concat, List.dropWhile_cons_of_neg (by simp [hlast]),
    List.reverse_cons, List.reverse_reverse]

theorem ofPieces_pieces (p : Path) : ofPieces p.pieces = p := by
  rw [ofPieces, pieces, glue_cut, String.ofList_toList]

end Path

/-! ## Walks -/

section Walks

variable {d : Disk} {p q : Path} {l m : Location}

theorem approach_eq (d : Disk) (p : Path) :
    d.approach p = d.walk (if p.isAbsolute then [] else d.start) p.steps :=
  rfl

/-- **A relative path is walked from where the path before it leads.** -/
theorem approach_join (h : d.approach p = .ok l) (hq : q.isAbsolute = false) :
    d.approach (p.join q) = d.walk l q.steps := by
  rw [approach_eq, Path.isAbsolute_join_relative p hq, Path.steps_join p hq]
  exact walk_append_ok h q.steps

theorem Path.fit_of_find (h : d.find p = .ok l) : p.Fit := by
  obtain ⟨r, hr, -⟩ := find_cases h
  exact Path.fit_of_route hr

/-- What a path leads to is found there if its text is fit for a path. -/
theorem find_of_approach (hfit : p.Fit) (h : d.approach p = .ok l)
    (hends : p.text.toList.getLast? = some '/' → d.isDirectoryAt l = true) : d.find p = .ok l := by
  rw [approach_eq, Path.steps] at h
  have hslash : (decide (p.text.toList.getLast? = some '/') && !d.isDirectoryAt l) = false := by
    by_cases hlast : p.text.toList.getLast? = some '/'
    · simp [hlast, hends hlast]
    · simp [hlast]
  simp only [find, hfit.route, h, hslash, bind, Except.bind, Bool.false_eq_true, if_false]

theorem approach_of_find (h : d.find p = .ok l) : d.approach p = .ok l := by
  obtain ⟨r, hr, hwalk, -⟩ := find_cases h
  obtain ⟨horigin, hpieces, -⟩ := route_ok hr
  rw [approach_eq, ← horigin, Path.steps, ← hpieces]
  exact hwalk

theorem approach_of_isDirectory (h : d.isDirectory p = true) :
    p.Fit ∧ d.approach p = .ok (p.destination d.start) ∧
    d.isDirectoryAt (p.destination d.start) = true := by
  unfold isDirectory at h
  split at h
  · rename_i item hlook
    obtain ⟨hfind, hitem⟩ := look_ok hlook
    refine ⟨Path.fit_of_find hfind, approach_of_find hfind, ?_⟩
    cases item with
    | file bytes t => exact absurd h (by simp [Item.isFile])
    | directory t => rw [isDirectoryAt, hitem]
  · exact absurd h (by simp)

theorem look_of_isFile (h : d.isFile p = true) : ∃ bytes t, d.look p = .ok (.file bytes t) := by
  unfold isFile at h
  split at h
  · rename_i item hlook
    cases item with
    | file bytes t => exact ⟨bytes, t, hlook⟩
    | directory t => exact absurd h (by simp [Item.isFile])
  · exact absurd h (by simp)

/-- What is found at a path that ends in a slash is a directory. -/
theorem isDirectoryAt_of_endsInSlash (h : d.find p = .ok l)
    (hends : p.text.toList.getLast? = some '/') : d.isDirectoryAt l = true := by
  obtain ⟨r, hr, -, hslash⟩ := find_cases h
  exact hslash (by rw [(route_ok hr).2.2, hends]; rfl)

/-- A path to a file does not end in a dot. -/
theorem getLast?_of_isFile (h : d.isFile p = true) : p.pieces.getLast? ≠ some ['.'] := by
  intro hlast
  obtain ⟨bytes, t, hlook⟩ := look_of_isFile h
  obtain ⟨hfind, hitem⟩ := look_ok hlook
  have hwalk := approach_of_find hfind
  obtain ⟨front, hfront⟩ := List.getLast?_eq_some_iff.mp hlast
  rw [approach_eq, Path.steps, hfront, List.filter_append] at hwalk
  obtain ⟨l, -, hstep⟩ := walk_concat hwalk
  have hdir := isDirectoryAt_of_step hstep
  rw [step, if_neg (by simp [hdir]), if_pos rfl] at hstep
  rw [Except.ok.inj hstep, isDirectoryAt, hitem] at hdir
  exact absurd hdir (by simp)

/-- A walk that ends in a directory started in one. -/
theorem isDirectoryAt_of_walk {pieces : List (List Char)} (h : d.walk l pieces = .ok m)
    (hm : d.isDirectoryAt m = true) : d.isDirectoryAt l = true := by
  cases pieces with
  | nil =>
    obtain rfl : l = m := Except.ok.inj h
    exact hm
  | cons piece rest =>
    obtain ⟨k, hstep, -⟩ := walk_cons h
    exact isDirectoryAt_of_step hstep

end Walks

end AltRender.Disk

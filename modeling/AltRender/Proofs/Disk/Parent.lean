import AltRender.Proofs.Disk.View

/-!
# `Proofs/Disk/Parent` — the way to a parent

The parent of a path is found on the text. It keeps the pieces up to the last that has a meaning, so
that the way to it is the first part of the way to the path (`route_parent?`).

The text is not enough by itself, because what a disk walks along is the route, and that leaves out
empty pieces and says whether the text ends in a slash. A piece that is dropped with the last name
is a dot or empty, so it would have led nowhere (`here_of_redundant`); what is left is a walk over
the same pieces up to the name, from the same origin.
-/

set_option autoImplicit false

namespace AltRender.Disk

open AltRender.Text

/-! ## The directory above -/

theorem here_of_redundant {pieces : List (List Char)}
    (h : ∀ piece ∈ pieces, Path.isRedundant piece = true) :
    ∀ piece ∈ pieces.filter (fun piece => !piece.isEmpty), piece = ['.'] := by
  intro piece hpiece
  obtain ⟨hmem, hne⟩ := List.mem_filter.mp hpiece
  have hredundant := h piece hmem
  simp only [Path.isRedundant, Bool.or_eq_true, beq_iff_eq] at hredundant
  exact hredundant.resolve_left (by simpa using hne)

theorem Path.isAbsolute_iff {p : Path} {first : List Char} {rest : List (List Char)}
    (hp : p.pieces = first :: rest) : p.isAbsolute = true ↔ first = [] ∧ rest ≠ [] := by
  have hmem : first ∈ cut '/' p.text.toList := by
    rw [show cut '/' p.text.toList = first :: rest from hp]
    exact List.mem_cons_self
  have hslash := not_mem_of_mem_cut hmem
  have htext := glue_cut '/' p.text.toList
  rw [show cut '/' p.text.toList = first :: rest from hp] at htext
  rw [isAbsolute, ← htext, beq_iff_eq]
  cases rest with
  | nil =>
    simp only [glue, ne_eq, not_true_eq_false, and_false, iff_false]
    intro hhead
    exact hslash (List.mem_of_head? hhead)
  | cons next rest =>
    cases first with
    | nil => simp [glue]
    | cons c cs =>
      simp only [glue, List.cons_append, List.head?_cons, Option.some.injEq, reduceCtorEq,
        false_and, iff_false]
      rintro rfl
      exact hslash List.mem_cons_self

theorem glue_prefix (d : Char) (first : List Char) (front rest : List (List Char)) :
    glue d (first :: front) <+: glue d (first :: (front ++ rest)) := by
  induction front generalizing first with
  | nil =>
    cases rest with
    | nil => exact List.prefix_refl _
    | cons next rest => exact List.prefix_append _ _
  | cons next front ih =>
    obtain ⟨tail, htail⟩ := ih next
    exact ⟨tail, by simp only [List.cons_append, glue, List.append_assoc, ← htail]⟩

/-- The text of a path starts with that of its parent. -/
theorem Path.parent?_prefix {p q : Path} (h : p.parent? = some q) :
    q.text.toList <+: p.text.toList := by
  obtain ⟨first, rest, hp⟩ := p.pieces_eq_cons
  have htext : p.text.toList = glue '/' (first :: rest) := by
    rw [← hp, pieces, glue_cut]
  obtain ⟨ends, hrest, -⟩ := exists_redundant rest
  rcases parent?_cases hp h with ⟨-, -, rfl⟩ | ⟨front, last, rest', hconcat, -, hq, hrest'⟩
  · exact List.nil_prefix
  · have hqtext : q.text.toList = glue '/' (first :: rest') := by
      rw [← hq, pieces, glue_cut]
    rw [hqtext, htext]
    rcases hrest' with ⟨-, rfl⟩ | ⟨rfl, rfl, -⟩
    · obtain ⟨ends', hfront, -⟩ := exists_redundant front
      rw [hconcat, List.append_assoc] at hrest
      rw [hrest]
      conv => rhs; rw [hfront, List.append_assoc]
      exact glue_prefix '/' first _ _
    · obtain ⟨next, rest', rfl⟩ := List.exists_cons_of_ne_nil (ne_nil_of_dropRedundantEnd hconcat)
      exact List.prefix_append ['/'] _

/-- **The pieces of a parent:** those of the path up to its last one that has a meaning. -/
theorem Path.pieces_parent? {p q : Path} (h : p.parent? = some q) :
    ∃ here last here', p.pieces.filter (fun piece => !piece.isEmpty) =
        q.pieces.filter (fun piece => !piece.isEmpty) ++ (here ++ last :: here') ∧
      (∀ piece ∈ here, piece = ['.']) ∧ (∀ piece ∈ here', piece = ['.']) ∧
      q.isAbsolute = p.isAbsolute := by
  obtain ⟨first, rest, hp⟩ := p.pieces_eq_cons
  obtain ⟨ends, hrest, hends⟩ := exists_redundant rest
  rw [hp]
  rcases parent?_cases hp h with
    ⟨hfirst, hbody, rfl⟩ | ⟨front, last, rest', hconcat, hlast, hq, hrest'⟩
  · -- The path is a single name, and its parent the empty path.
    rw [hbody, List.nil_append] at hrest
    refine ⟨[], first, ends.filter (fun piece => !piece.isEmpty), ?_, by simp,
      here_of_redundant hends, ?_⟩
    · rw [hrest, List.filter_cons_of_pos (by simpa using hfirst)]
      rfl
    · symm
      change p.isAbsolute = false
      exact Bool.eq_false_iff.mpr fun habs => hfirst ((isAbsolute_iff hp).mp habs).1
  · obtain ⟨ends', hfront, hends'⟩ := exists_redundant front
    have hroot : first = [] → rest' ≠ [] := by
      rcases hrest' with ⟨hroot, -⟩ | ⟨-, rfl, -⟩
      · exact hroot
      · exact fun _ => List.cons_ne_nil _ _
    have hone : [last].filter (fun piece => !piece.isEmpty) = [last] := by
      refine List.filter_cons_of_pos ?_
      cases last with
      | nil => exact absurd hlast (by decide)
      | cons c cs => rfl
    -- An absolute path that loses its last name keeps an empty piece for the root, and that piece
    -- is no component.
    have hfilter : rest'.filter (fun piece => !piece.isEmpty) =
        (dropRedundantEnd front).filter (fun piece => !piece.isEmpty) := by
      rcases hrest' with ⟨-, rfl⟩ | ⟨-, rfl, hnil⟩
      · rfl
      · rw [hnil]
        rfl
    refine ⟨ends'.filter (fun piece => !piece.isEmpty), last,
      ends.filter (fun piece => !piece.isEmpty), ?_,
      here_of_redundant hends', here_of_redundant hends, ?_⟩
    · have hfilter' := congrArg (List.filter fun piece => !piece.isEmpty)
        (hrest.trans (by rw [hconcat, hfront]))
      simp only [List.filter_append, hone] at hfilter'
      rw [hq, List.filter_cons, List.filter_cons, hfilter, hfilter']
      split <;> simp
    · rw [Bool.eq_iff_iff, isAbsolute_iff hq, isAbsolute_iff hp]
      exact ⟨fun h => ⟨h.1, ne_nil_of_dropRedundantEnd hconcat⟩, fun h => ⟨h.1, hroot h.1⟩⟩

/-- **The route of a parent** is the first part of the route of the path. -/
theorem route_parent? {d : Disk} {p q : Path} {r : Route} (hr : d.route p = .ok r)
    (hq : p.parent? = some q) (hne : q.components ≠ []) :
    ∃ r' here last here', d.route q = .ok r' ∧ r'.origin = r.origin ∧
      r.pieces = r'.pieces ++ (here ++ last :: here') ∧ (∀ piece ∈ here, piece = ['.']) ∧
      ∀ piece ∈ here', piece = ['.'] := by
  obtain ⟨here, last, here', hpieces, hhere, hhere', habs⟩ := Path.pieces_parent? hq
  obtain ⟨horigin, hsteps, -⟩ := route_ok hr
  have hnonempty : q.text.toList ≠ [] := by
    intro hempty
    obtain ⟨text⟩ := q
    obtain rfl : text = "" := String.toList_eq_nil_iff.mp hempty
    exact hne rfl
  have hfit : q.Fit := (Path.fit_of_route hr).of_initial (Path.parent?_prefix hq) hnonempty
  exact ⟨_, here, last, here', hfit.route d, by rw [horigin, habs], by rw [hsteps, hpieces], hhere,
    hhere'⟩

end AltRender.Disk

import AltRender.Proofs.Disk.Component

/-!
# `Proofs/Disk/Waypoint` — the way to a path, and names below it

A walk along a path passes the destinations of the fronts of its components (`mem_waypoints`). The
ancestors of the path lead to some of these (`Path.destination_of_mem_ancestors`), which is where
directories are made for it.

The last step of the way matters most, because entries are names below a directory. Such a name
leads to one more location than the directory does (`Path.destination_join`). What is found under
the name is found through the directory (`find_of_find_join`), and it is the target of its path, so
that what is asked about it and what is done to it are about the same place
(`target_of_find_join`).
-/

set_option autoImplicit false

namespace AltRender.Disk

open AltRender.Text

/-! ## The places on the way -/

theorem passed_concat (start : Location) (cs : List Component) (c : Component) :
    passed start (cs ++ [c]) = onward ((passed start cs).headD start) c :: passed start cs := by
  rw [passed, List.foldl_append]
  rfl

theorem headD_passed (start : Location) (cs : List Component) :
    (passed start cs).headD start = cs.foldl onward start := by
  induction cs using List.reverseRecOn with
  | nil => rfl
  | append_singleton cs c ih =>
    rw [passed_concat, List.headD_cons, ih, List.foldl_append]
    rfl

/-- **A walk passes the destinations of the fronts of its components.** -/
theorem mem_waypoints {start l : Location} {p : Path} :
    l ∈ waypoints start p ↔ ∃ front, front <+: p.components ∧ l = front.foldl onward start := by
  rw [waypoints, List.mem_reverse]
  generalize p.components = cs
  induction cs using List.reverseRecOn with
  | nil =>
    simp [passed]
  | append_singleton cs c ih =>
    rw [passed_concat, List.mem_cons, ih, headD_passed]
    constructor
    · rintro (rfl | ⟨front, hfront, rfl⟩)
      · exact ⟨cs ++ [c], List.prefix_refl _, by rw [List.foldl_append]; rfl⟩
      · exact ⟨front, hfront.trans (List.prefix_append cs [c]), rfl⟩
    · rintro ⟨front, hfront, rfl⟩
      rcases List.prefix_concat_iff.mp hfront with rfl | hfront
      · exact .inl (by rw [List.foldl_append]; rfl)
      · exact .inr ⟨front, hfront, rfl⟩

/-- The components of a path's ancestors are fronts of its own. -/
theorem Path.components_of_mem_ancestors {p q : Path} (h : q ∈ p.ancestors) :
    q.components <+: p.components := by
  unfold ancestors at h
  generalize p.components.length = n at h
  induction n generalizing p with
  | zero =>
    obtain rfl := List.mem_singleton.mp h
    exact List.prefix_refl _
  | succ n ih =>
    rw [ancestorsUpTo] at h
    cases hparent : p.parent? with
    | none =>
      rw [hparent] at h
      obtain rfl := List.mem_singleton.mp h
      exact List.prefix_refl _
    | some parent =>
      rw [hparent] at h
      rcases List.mem_cons.mp h with rfl | h
      · exact List.prefix_refl _
      · refine (ih h).trans ?_
        rw [components_parent? hparent]
        exact List.dropLast_prefix _

theorem Path.destination_of_mem_ancestors {start : Location} {p q : Path} (h : q ∈ p.ancestors) :
    q.destination start ∈ waypoints start p :=
  mem_waypoints.mpr ⟨q.components, components_of_mem_ancestors h, rfl⟩

/-- **A name below a directory leads into the directory.** -/
theorem Path.destination_join (start : Location) (p : Path) {name : String} (h : PlainName name) :
    (p.join ⟨name⟩).destination start = p.destination start ++ [name] := by
  rw [destination, components_join p h, List.foldl_append]
  rfl

/-! ## Names below a directory -/

theorem filter_pieces_join (p : Path) {name : String} (h : PlainName name) :
    (p.join ⟨name⟩).pieces.filter (fun piece => !piece.isEmpty) =
      p.pieces.filter (fun piece => !piece.isEmpty) ++ [name.toList] := by
  have hname : [name.toList].filter (fun piece => !piece.isEmpty) = [name.toList] :=
    List.filter_cons_of_pos (by simpa using h.notEmpty)
  rcases p.pieces_join h with ⟨front, hpieces, hjoined⟩ | ⟨-, hjoined⟩
  · rw [hpieces, hjoined, List.filter_append, List.filter_append, hname]
    simp
  · rw [hjoined, List.filter_append, hname]

theorem endsInSlash_join {d : Disk} {p : Path} {name : String} (h : PlainName name) {r : Route}
    (hr : d.route (p.join ⟨name⟩) = .ok r) : r.endsInSlash = false := by
  have hends : ∃ front, (p.join ⟨name⟩).text.toList = front ++ name.toList := by
    rcases p.toList_join h with ⟨-, htext⟩ | ⟨-, htext⟩
    · exact ⟨_, htext⟩
    · exact ⟨p.text.toList ++ ['/'], by rw [htext]; simp⟩
  obtain ⟨front, hfront⟩ := hends
  rw [(route_ok hr).2.2, hfront, List.getLast?_append, List.getLast?_eq_some_getLast h.notEmpty,
    Option.some_or, decide_eq_false_iff_not, Option.some.injEq]
  intro hlast
  exact h.noSlash (hlast ▸ List.getLast_mem h.notEmpty)

/-- The directory that a name is below has a route if the name has one. -/
theorem exists_route_of_join {d : Disk} {p : Path} {name : String} (h : PlainName name)
    (hp : p.text.toList ≠ []) {r : Route} (hr : d.route (p.join ⟨name⟩) = .ok r) :
    ∃ r', d.route p = .ok r' ∧ r'.origin = r.origin ∧ r.pieces = r'.pieces ++ [name.toList] := by
  have hprefix : p.text.toList <+: (p.join ⟨name⟩).text.toList := by
    rcases p.toList_join h with ⟨-, htext⟩ | ⟨-, htext⟩
    · exact htext ▸ List.prefix_append _ _
    · exact htext ▸ List.prefix_append _ _
  have habs : (p.join ⟨name⟩).isAbsolute = p.isAbsolute := by
    obtain ⟨rest, hrest⟩ := hprefix
    obtain ⟨c, hc⟩ := Option.isSome_iff_exists.mp (List.isSome_head?.mpr hp)
    rw [Path.isAbsolute, Path.isAbsolute, ← hrest, List.head?_append, hc, Option.some_or]
  obtain ⟨horigin, hpieces, -⟩ := route_ok hr
  rw [filter_pieces_join p h] at hpieces
  have hfit : p.Fit := (Path.fit_of_route hr).of_initial hprefix hp
  exact ⟨_, hfit.route d, by rw [horigin, habs], hpieces⟩

/-- **What is found below a directory is found through the directory.** -/
theorem find_of_find_join {d : Disk} {p : Path} {name : String} (h : PlainName name)
    (hp : p.text.toList ≠ []) {l : Location} (hfind : d.find (p.join ⟨name⟩) = .ok l) :
    d.find p = .ok (p.destination d.start) ∧ d.isDirectoryAt (p.destination d.start) = true := by
  obtain ⟨r, hr, hwalk, -⟩ := find_cases hfind
  obtain ⟨r', hr', horigin, hpieces⟩ := exists_route_of_join h hp hr
  rw [hpieces, ← horigin] at hwalk
  obtain ⟨m, hwalk', hstep⟩ := walk_concat hwalk
  have hdir := (step_ok h.notEmpty hstep).1
  have hfind' : d.find p = .ok m := by
    simp only [find, hr', hwalk', hdir, bind, Except.bind, Bool.not_true, Bool.and_false,
      Bool.false_eq_true, if_false]
  obtain rfl := find_ok hfind'
  exact ⟨hfind', hdir⟩

theorem child_of_step {d : Disk} {l r : Location} {piece : List Char} (hdots : isDots piece = false)
    (h : d.step l piece = .ok r) : child l piece = .ok r := by
  simp only [isDots, Bool.or_eq_false_iff, beq_eq_false_iff_ne] at hdots
  unfold step at h
  split at h
  · exact absurd h (by simp)
  · rw [if_neg hdots.1, if_neg hdots.2] at h
    split at h
    · exact absurd h (by simp)
    · rename_i hlength
      split at h
      · rw [child, if_neg hlength, h]
      · exact absurd h (by simp)

/-- What is found below a directory is the target of its path. -/
theorem target_of_find_join {d : Disk} {p : Path} {name : String} (h : PlainName name)
    {l : Location} (hfind : d.find (p.join ⟨name⟩) = .ok l) :
    ∃ parent, d.target (p.join ⟨name⟩) = .ok ⟨parent, some name.toList, false⟩ ∧
      child parent name.toList = .ok l := by
  obtain ⟨r, hr, hwalk, -⟩ := find_cases hfind
  have hpieces := (route_ok hr).2.1
  rw [filter_pieces_join p h] at hpieces
  rw [hpieces] at hwalk
  obtain ⟨parent, hwalk', hstep⟩ := walk_concat hwalk
  have hdir := (step_ok h.notEmpty hstep).1
  refine ⟨parent, ?_, child_of_step h.notDots hstep⟩
  simp only [target, hr, hpieces, List.getLast?_concat, List.dropLast_concat, hwalk', hdir,
    h.notDots, endsInSlash_join h hr, bind, Except.bind, Bool.not_true, Bool.false_eq_true,
    if_false]

end AltRender.Disk

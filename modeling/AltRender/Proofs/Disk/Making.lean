import AltRender.Proofs.Disk.Vacancy

/-!
# `Proofs/Disk/Making` — what making directories comes to

Making a directory with all that are missing above it tries the path, then its parent, then the
parent of that, and so on, and then comes down again. What it says in the end is what the disk says
afterwards: the directory can be reached, or a walk to it fails for the reason that was given
(`verdict_makeAll`). So making it once more changes nothing and says the same (`makeAll_again`).

This needs a path that goes up by `..` only from directories that were there before. Any other makes
directories that it leaves again, and behind them may be what it did not see at first: `x/../f/y`
does not find `x` and makes it, and only then finds that `f` is a file.
-/

set_option autoImplicit false

namespace AltRender.Disk

open AltRender.Text

/-! ## Making a directory with those above it -/

section Verdict

variable {d d' : Disk} {p : Path} {r : Route} {now : Instant}

/-- A path that has components has a route, or none for another reason than that it is missing. -/
theorem route_ne_notFound (hne : p.components ≠ []) : d.route p ≠ .error .notFound := by
  unfold route
  split
  · simp
  · split
    · rename_i hempty
      obtain ⟨text⟩ := p
      obtain rfl : text = "" := String.isEmpty_iff.mp hempty
      exact absurd rfl hne
    · split <;> simp

/-- Nothing is missing for a path that has no route. -/
theorem exists_route_of_missing (hne : p.components ≠ []) (h : d.reach p = .error .notFound) :
    ∃ r, d.route p = .ok r := by
  cases hr : d.route p with
  | ok r => exact ⟨r, rfl⟩
  | error fault =>
    rw [reach, hr] at h
    obtain rfl : fault = .notFound := Except.error.inj h
    exact absurd hr (route_ne_notFound hne)

theorem makeAll_of_empty (hempty : p.components = []) (now : Instant) (parents : List Path) :
    makeAll now (p :: parents) d = (.ok (), d) := by
  rw [makeAll, if_pos (by rw [hempty]; rfl)]

theorem makeAll_of_made (hne : p.components ≠ []) (h : d.makeDirectory p now = .ok d')
    (parents : List Path) : makeAll now (p :: parents) d = (.ok (), d') := by
  rw [makeAll, if_neg (by simpa using hne), h]

theorem makeAll_of_fault (hne : p.components ≠ []) {fault : Fault} (hfault : fault ≠ .notFound)
    (h : d.vacancy p = .error fault) (now : Instant) (parents : List Path) :
    makeAll now (p :: parents) d = (if d.isDirectory p then .ok () else .error fault, d) := by
  rw [makeAll, if_neg (by simpa using hne), makeDirectory_of_fault h]
  split
  · rename_i hmade
    exact absurd hmade (by simp)
  · rename_i hmade
    exact absurd (Except.error.inj hmade) hfault
  · rename_i hmade
    rw [Except.error.inj hmade]

/-- If something is missing, the parents come first. -/
theorem makeAll_of_missing (hne : p.components ≠ []) (h : d.vacancy p = .error .notFound)
    (now : Instant) (parents : List Path) :
    makeAll now (p :: parents) d =
      match makeAll now parents d with
      | (.error fault, d') => (.error fault, d')
      | (.ok (), d') =>
        match d'.makeDirectory p now with
        | .ok d'' => (.ok (), d'')
        | .error fault => (if d'.isDirectory p then .ok () else .error fault, d') := by
  have hnot : ¬ p.components.isEmpty = true := by simpa using hne
  simp only [makeAll, hnot, makeDirectory_of_fault h]
  rfl

/-- **If nothing is missing, nothing is made.** -/
theorem makeAll_of_reach (hne : p.components ≠ []) (h : d.reach p ≠ .error .notFound)
    (now : Instant) (parents : List Path) : makeAll now (p :: parents) d = (d.verdict p, d) := by
  cases hr : d.route p with
  | error fault =>
    have hreach : d.reach p = .error fault := by rw [reach, hr]; rfl
    have hvacancy : d.vacancy p = .error fault := by
      simp only [vacancy, target, hr, bind, Except.bind]
    have hdir : ¬ d.isDirectory p = true := by
      rw [isDirectory_iff, verdict_of_reach hreach]
      simp
    have hfault : fault ≠ .notFound := by
      rintro rfl
      exact h hreach
    rw [makeAll_of_fault hne hfault hvacancy, if_neg hdir, verdict_of_reach hreach]
  | ok r =>
    rcases vacancy_cases hr with ⟨l, -, hvacancy⟩ | ⟨fault, hfault, -, hvacancy⟩ | ⟨hreach, -⟩
    · rw [makeAll_of_fault hne (by simp) hvacancy, verdict_of_vacancy hr hvacancy]
    · rw [makeAll_of_fault hne hfault hvacancy, verdict_of_vacancy hr hvacancy]
    · exact absurd hreach h

theorem ancestorsUpTo_cases (n : Nat) (p : Path) :
    Path.ancestorsUpTo n p = [p] ∨
      ∃ m q, n = m + 1 ∧ p.parent? = some q ∧
        Path.ancestorsUpTo n p = p :: Path.ancestorsUpTo m q := by
  cases n with
  | zero => exact .inl rfl
  | succ m =>
    rw [Path.ancestorsUpTo]
    cases hq : p.parent? with
    | none => exact .inl rfl
    | some q => exact .inr ⟨m, q, rfl, rfl, rfl⟩

theorem Path.ClimbsOn.parent {q : Path} (h : p.ClimbsOn d) (hq : p.parent? = some q) :
    q.ClimbsOn d := by
  intro front hfront
  rw [Path.components_parent? hq] at hfront
  exact h front (hfront.trans (List.dropLast_prefix _))

theorem route_grown {place : Location → Prop} (hgrown : Grown place d d') (p : Path) :
    d'.route p = d.route p :=
  route_congr hgrown.start p

/-- **What keeps a parent from being a directory keeps the path from being one,** if it was not
there before. -/
theorem walk_of_parent {place : Location → Prop} (htree : d.IsTree) (hclimbs : p.ClimbsOn d)
    (hr : d.route p = .ok r) (hreach : d.reach p = .error .notFound) (hgrown : Grown place d d')
    {q : Path} (hq : p.parent? = some q) (hne : q.components ≠ []) {fault : Fault}
    (h : d'.verdict q = .error fault) :
    ∃ front last, r.pieces = front ++ [last] ∧ d'.walk r.origin front = .error fault := by
  obtain ⟨r', here, last, here', hr', horigin, hpieces, -, -⟩ := route_parent? hr hq hne
  have hreach' := reach_of_route ((route_grown hgrown q).trans hr')
  have hend : here ++ last :: here' ≠ [] := by simp
  have hsplit : r.pieces =
    (r'.pieces ++ (here ++ last :: here').dropLast) ++ [(here ++ last :: here').getLast hend] := by
    rw [List.append_assoc, List.dropLast_concat_getLast, hpieces]
  refine ⟨_, _, hsplit, ?_⟩
  cases hwalk : d'.walk r'.origin r'.pieces with
  | error fault' =>
    rw [hwalk] at hreach'
    obtain rfl := Except.error.inj ((verdict_of_reach hreach').symm.trans h)
    exact walk_append_error (horigin ▸ hwalk) _
  | ok l =>
    -- It would be a file, which was there before, and so would have been found before.
    rw [hwalk] at hreach'
    have hfile : d'.isDirectoryAt l = false := by
      rw [verdict, hreach'] at h
      cases hdir : d'.isDirectoryAt l with
      | false => rfl
      | true =>
        rw [Except.bind, hdir, if_pos rfl] at h
        exact absurd h (by simp)
    rw [horigin] at hwalk
    rcases walk_grown_cases htree hclimbs hr hgrown (hpieces ▸ List.prefix_append _ _) hwalk with
      hdir | hbefore
    · rw [hfile] at hdir
      exact absurd hdir (by decide)
    · have hfile' : d.isDirectoryAt l = false := by
        rw [Bool.eq_false_iff]
        intro hdir
        rw [isDirectoryAt_iff.mpr (hgrown.kept _ _ (isDirectoryAt_iff.mp hdir))] at hfile
        exact absurd hfile (by decide)
      obtain ⟨next, rest, hnext⟩ := List.exists_cons_of_ne_nil hend
      rw [reach_of_route hr, hpieces, walk_append_ok hbefore, hnext,
        walk_cons_of_not_directory hfile'] at hreach
      exact absurd hreach (by simp)

/-- **How the making of missing directories goes:** in the end the directory is there, or its
parents could not be made, or they were and it could not. -/
theorem makeAll_missing_cases (hne : p.components ≠ []) (hreach : d.reach p = .error .notFound)
    {parents : List Path} {result : Except Fault Unit}
    (h : makeAll now (p :: parents) d = (result, d')) :
    (result = .ok () ∧ d'.verdict p = .ok ()) ∨
      d.vacancy p = .error .notFound ∧
        ((∃ fault, result = .error fault ∧ makeAll now parents d = (.error fault, d')) ∨
          makeAll now parents d = (.ok (), d') ∧
            ∃ fault, d'.vacancy p = .error fault ∧
              result = if d'.isDirectory p then .ok () else .error fault) := by
  obtain ⟨r, hr⟩ := exists_route_of_missing hne hreach
  rcases vacancy_of_missing hr hreach with hvacancy | ⟨l, hvacancy⟩
  · rw [makeAll_of_missing hne hvacancy] at h
    rcases hparents : makeAll now parents d with ⟨above, d₁⟩
    cases above with
    | error fault =>
      rw [hparents] at h
      obtain ⟨rfl, rfl⟩ := Prod.mk.inj h
      exact .inr ⟨hvacancy, .inl ⟨fault, rfl, rfl⟩⟩
    | ok u =>
      rw [hparents] at h
      -- The parents are there, and the path may have come with them: one of them can be another
      -- spelling of it.
      cases hlast : d₁.vacancy p with
      | ok l =>
        have hmade := makeDirectory_of_vacancy hlast now
        simp only [hmade] at h
        obtain ⟨rfl, rfl⟩ := Prod.mk.inj h
        exact .inl ⟨rfl, verdict_of_makeDirectory hmade⟩
      | error fault =>
        simp only [makeDirectory_of_fault hlast] at h
        obtain ⟨rfl, rfl⟩ := Prod.mk.inj h
        exact .inr ⟨hvacancy, .inr ⟨rfl, fault, hlast, rfl⟩⟩
  · have hmade := makeDirectory_of_vacancy hvacancy now
    rw [makeAll_of_made hne hmade] at h
    obtain ⟨rfl, rfl⟩ := Prod.mk.inj h
    exact .inl ⟨rfl, verdict_of_makeDirectory hmade⟩

theorem makeAll_eq_grown {paths : List Path} {result : Except Fault Unit}
    (h : makeAll now paths d = (result, d')) : Grown (fun _ => True) d d' := by
  have hgrown := @makeAll_grown (fun _ => True) now paths d fun _ _ => trivial
  rwa [h] at hgrown

/-- If parents could not be made, there are some, and the nearest has components. -/
theorem makeAll_parents_cases {n : Nat} {parents : List Path}
    (hparents : Path.ancestorsUpTo n p = p :: parents) {fault : Fault}
    (h : makeAll now parents d = (.error fault, d')) :
    ∃ m q, n = m + 1 ∧ p.parent? = some q ∧ parents = Path.ancestorsUpTo m q ∧
      q.components ≠ [] := by
  rcases ancestorsUpTo_cases n p with hone | ⟨m, q, hn, hq, hmany⟩
  · rw [hone] at hparents
    obtain rfl := (List.cons.inj hparents).2
    exact absurd h (by simp [makeAll])
  · rw [hmany] at hparents
    obtain rfl := (List.cons.inj hparents).2
    refine ⟨m, q, hn, hq, rfl, fun hempty => ?_⟩
    rcases ancestorsUpTo_cases m q with hone | ⟨m', q', -, -, hmany'⟩
    · rw [hone, makeAll_of_empty hempty] at h
      exact absurd h (by simp)
    · rw [hmany', makeAll_of_empty hempty] at h
      exact absurd h (by simp)

theorem exists_parents (n : Nat) (p : Path) : ∃ parents, Path.ancestorsUpTo n p = p :: parents := by
  rcases ancestorsUpTo_cases n p with hone | ⟨m, q, -, -, hmany⟩
  · exact ⟨[], hone⟩
  · exact ⟨_, hmany⟩

/-- **What the making of a directory says is what the disk says afterwards.** -/
theorem verdict_makeAll (htree : d.IsTree) {n : Nat} (hclimbs : p.ClimbsOn d)
    (hne : p.components ≠ []) {result : Except Fault Unit}
    (h : makeAll now (Path.ancestorsUpTo n p) d = (result, d')) : d'.verdict p = result := by
  -- By induction on the parents: what keeps the nearest from being a directory keeps the path from
  -- being one.
  induction n using Nat.strongRecOn generalizing p result d' with
  | ind n ih =>
    obtain ⟨parents, hparents⟩ := exists_parents n p
    rw [hparents] at h
    by_cases hreach : d.reach p = .error .notFound
    · obtain ⟨r, hr⟩ := exists_route_of_missing hne hreach
      have hr' := (route_grown (makeAll_eq_grown h) p).trans hr
      rcases makeAll_missing_cases hne hreach h with
        ⟨rfl, hthere⟩ | ⟨-, ⟨fault, rfl, habove⟩ | ⟨-, fault, hfault, rfl⟩⟩
      · exact hthere
      · obtain ⟨m, q, rfl, hq, rfl, hneq⟩ := makeAll_parents_cases hparents habove
        have hverdict := ih m (Nat.lt_succ_self m) (hclimbs.parent hq) hneq habove
        obtain ⟨front, last, hpieces, hwalk⟩ :=
          walk_of_parent htree hclimbs hr hreach (makeAll_eq_grown h) hq hneq hverdict
        rw [verdict, reach_concat hr' hpieces, hwalk]
        rfl
      · exact (verdict_of_vacancy hr' hfault).symm
    · rw [makeAll_of_reach hne hreach] at h
      obtain ⟨rfl, rfl⟩ := Prod.mk.inj h
      rfl

/-- **To make a directory again changes nothing and says the same.** -/
theorem makeAll_again (htree : d.IsTree) {n : Nat} (hclimbs : p.ClimbsOn d)
    {result : Except Fault Unit} (h : makeAll now (Path.ancestorsUpTo n p) d = (result, d'))
    (now' : Instant) : makeAll now' (Path.ancestorsUpTo n p) d' = (result, d') := by
  -- What the first time said is what the disk says now, so what is made again is the parents that
  -- are missing still.
  induction n using Nat.strongRecOn generalizing p result d' with
  | ind n ih =>
    by_cases hne : p.components = []
    · obtain ⟨parents, hparents⟩ := exists_parents n p
      rw [hparents, makeAll_of_empty hne] at h ⊢
      rw [(Prod.mk.inj h).1]
    · have hverdict := verdict_makeAll htree hclimbs hne h
      obtain ⟨parents, hparents⟩ := exists_parents n p
      rw [hparents] at h ⊢
      by_cases hreach' : d'.reach p = .error .notFound
      · -- The directory is still missing, so it is missing for want of its parents or could not be
        -- made after them.
        have hreach : d.reach p = .error .notFound := by
          by_contra hreach
          rw [makeAll_of_reach hne hreach] at h
          exact hreach ((Prod.mk.inj h).2 ▸ hreach')
        obtain ⟨r, hr'⟩ := exists_route_of_missing hne hreach'
        have hr := (route_grown (makeAll_eq_grown h) p).symm.trans hr'
        rw [verdict_of_reach hreach'] at hverdict
        subst hverdict
        rcases makeAll_missing_cases hne hreach h with
          ⟨habsurd, -⟩ | ⟨-, ⟨fault, hfault, habove⟩ | ⟨habove, fault, hfault, hlast⟩⟩
        · exact absurd habsurd (by simp)
        · obtain rfl := Except.error.inj hfault
          obtain ⟨m, q, rfl, hq, rfl, hneq⟩ := makeAll_parents_cases hparents habove
          obtain ⟨front, last, hpieces, hwalk⟩ :=
            walk_of_parent htree hclimbs hr hreach (makeAll_eq_grown h) hq hneq
            (verdict_makeAll htree (hclimbs.parent hq) hneq habove)
          have hvacancy : d'.vacancy p = .error .notFound := by
            rw [vacancy_concat hr' hpieces, hwalk]
            rfl
          rw [makeAll_of_missing hne hvacancy, ih m (Nat.lt_succ_self m) (hclimbs.parent hq) habove]
        · have hvacancy : d'.vacancy p = .error .notFound :=
            (vacancy_of_missing hr' hreach').resolve_right fun ⟨l, hl⟩ =>
              absurd (hl.symm.trans hfault) (by simp)
          obtain rfl := Except.error.inj (hvacancy.symm.trans hfault)
          have hagain : makeAll now' parents d' = (.ok (), d') := by
            rcases ancestorsUpTo_cases n p with hone | ⟨m, q, rfl, hq, hmany⟩
            · rw [hone] at hparents
              obtain rfl := (List.cons.inj hparents).2
              rfl
            · rw [hmany] at hparents
              obtain rfl := (List.cons.inj hparents).2
              exact ih m (Nat.lt_succ_self m) (hclimbs.parent hq) habove
          rw [makeAll_of_missing hne hvacancy, hagain]
          simp only [makeDirectory_of_fault hvacancy]
          rw [← hlast]
      · rw [makeAll_of_reach hne hreach', hverdict]

end Verdict

/-! ## On disks that look the same -/

section Looks

variable {d e : Disk} {p : Path}

theorem Looks.vacancy (h : Looks d e) (p : Path) : e.vacancy p = d.vacancy p := by
  simp only [Disk.vacancy, h.target, h.isSome_item?]

theorem Looks.isDirectory (h : Looks d e) (p : Path) : e.isDirectory p = d.isDirectory p := by
  rw [Bool.eq_iff_iff, isDirectory_iff, isDirectory_iff]
  simp only [verdict, reach, route_congr h.start, h.walk, h.isDirectoryAt]

theorem vacancy_ok {l : Location} (h : d.vacancy p = .ok l) :
    l = p.destination d.start ∧ d.seen l = none ∧
    ∃ parent name, l = parent ++ [name] ∧ d.isDirectoryAt parent = true := by
  obtain ⟨t, name, ht, hname, h⟩ := named_ok h
  obtain ⟨hdest, hdir, -⟩ := target_ok ht hname
  obtain ⟨k, hchild, h⟩ := bind_ok h
  obtain ⟨rfl, -⟩ := child_ok hchild
  split at h
  · exact absurd h (by simp)
  · rename_i hitem
    obtain rfl := Except.ok.inj h
    rw [isSome_item?] at hitem
    exact ⟨hdest, by simpa using hitem, t.parent, _, rfl, hdir⟩

/-- The same put on disks that look the same gives disks that look the same. -/
theorem Looks.placed (h : Looks d e) {parent : Location} (hdir : d.isDirectoryAt parent = true)
    (name : String) {item item' : Item} (hitem : item'.bare = item.bare) (now now' : Instant) :
    Looks (d.place (parent ++ [name]) item now) (e.place (parent ++ [name]) item' now') := by
  have hd := altered_place hdir name item now
  have he := altered_place ((h.isDirectoryAt parent).trans hdir) name item' now'
  refine ⟨by rw [he.start, hd.start, h.start], ?_⟩
  funext k
  rw [he.seen, hd.seen, h.seen, hitem]

/-- **Directories are made alike,** whatever the time. -/
theorem Looks.makeAll (h : Looks d e) (now now' : Instant) (paths : List Path) :
    (Disk.makeAll now' paths e).1 = (Disk.makeAll now paths d).1 ∧
      Looks (Disk.makeAll now paths d).2 (Disk.makeAll now' paths e).2 := by
  induction paths generalizing d e with
  | nil => exact ⟨rfl, h⟩
  | cons p parents ih =>
    by_cases hempty : p.components = []
    · rw [makeAll_of_empty hempty, makeAll_of_empty hempty]
      exact ⟨rfl, h⟩
    · -- By the parents still to be made: what becomes of the path is read off `vacancy`, which
      -- disks that look the same agree on.
      cases hvacancy : d.vacancy p with
      | ok l =>
        obtain ⟨-, -, parent, name, rfl, hdir⟩ := vacancy_ok hvacancy
        rw [makeAll_of_made hempty (makeDirectory_of_vacancy hvacancy now),
          makeAll_of_made hempty (makeDirectory_of_vacancy ((h.vacancy p).trans hvacancy) now')]
        exact ⟨rfl, h.placed hdir name (by rfl) now now'⟩
      | error fault =>
        by_cases hfault : fault = .notFound
        · subst hfault
          obtain ⟨hresult, hlooks⟩ := ih h
          rw [makeAll_of_missing hempty hvacancy,
            makeAll_of_missing hempty ((h.vacancy p).trans hvacancy)]
          generalize Disk.makeAll now parents d = above at hresult hlooks ⊢
          generalize Disk.makeAll now' parents e = above' at hresult hlooks ⊢
          obtain ⟨result, d₁⟩ := above
          obtain ⟨result', e₁⟩ := above'
          obtain rfl : result' = result := hresult
          cases result' with
          | error fault => exact ⟨rfl, hlooks⟩
          | ok u =>
            cases hvacancy' : d₁.vacancy p with
            | ok l =>
              obtain ⟨-, -, parent, name, rfl, hdir⟩ := vacancy_ok hvacancy'
              simp only [makeDirectory_of_vacancy hvacancy' now,
                makeDirectory_of_vacancy ((hlooks.vacancy p).trans hvacancy') now']
              exact ⟨trivial, hlooks.placed hdir name (by rfl) now now'⟩
            | error fault =>
              simp only [makeDirectory_of_fault hvacancy' now,
                makeDirectory_of_fault ((hlooks.vacancy p).trans hvacancy') now',
                hlooks.isDirectory]
              exact ⟨trivial, hlooks⟩
        · rw [makeAll_of_fault hempty hfault hvacancy,
            makeAll_of_fault hempty hfault ((h.vacancy p).trans hvacancy), h.isDirectory]
          exact ⟨rfl, h⟩

end Looks

end AltRender.Disk

import AltRender.Disk.Change
import AltRender.Proofs.Disk.Parent
import AltRender.Proofs.Disk.Tree

/-!
# `Proofs/Disk/Vacancy` — making one directory

Where one directory can be made is its *vacancy*: the location that its path leads to, if all above
it is there and nothing is there itself. Making the directory puts it there (`makeDirectory_eq`), so
what can go wrong is what is wrong with the vacancy.

Whether the directory is there is a different question, and a disk answers it by a walk (`verdict`).
The two fit together (`vacancy_cases`). If the walk fails for any reason but that something is
missing, there is no vacancy, for the same reason. If something is missing, it is either the
directory alone, and then there is a vacancy, or something above it, and then there is none because
of that.
-/

set_option autoImplicit false

namespace AltRender.Disk

open AltRender.Text

/-! ## What a disk says about a directory -/

/-- Where a path leads to. -/
def reach (d : Disk) (p : Path) : Except Fault Location :=
  (d.route p).bind fun r => d.walk r.origin r.pieces

/-- **What there is to say about a directory at a path:** that it is there, or why not. -/
def verdict (d : Disk) (p : Path) : Except Fault Unit :=
  (d.reach p).bind fun l => if d.isDirectoryAt l then .ok () else .error .alreadyExists

section Verdict

variable {d d' : Disk} {p : Path} {r : Route} {now : Instant}

theorem reach_of_route (hr : d.route p = .ok r) : d.reach p = d.walk r.origin r.pieces := by
  rw [reach, hr]
  rfl

theorem isDirectory_iff (d : Disk) (p : Path) : d.isDirectory p = true ↔ d.verdict p = .ok () := by
  unfold isDirectory look find verdict reach
  cases hr : d.route p with
  | error fault => simp [bind, Except.bind]
  | ok r =>
    cases hwalk : d.walk r.origin r.pieces with
    | error fault => simp [hwalk, bind, Except.bind]
    | ok l =>
      cases hdir : d.isDirectoryAt l with
      | true =>
        obtain ⟨changed, hitem⟩ := item?_of_isDirectoryAt hdir
        simp [hwalk, hdir, hitem, bind, Except.bind, Item.isFile]
      | false =>
        cases hends : r.endsInSlash with
        | true => simp [hwalk, hdir, hends, bind, Except.bind]
        | false =>
          cases hitem : d.item? l with
          | none => simp [hwalk, hdir, hends, hitem, bind, Except.bind]
          | some item =>
            cases item with
            | file bytes changed => simp [hwalk, hdir, hends, hitem, bind, Except.bind, Item.isFile]
            | directory changed =>
              simp only [isDirectoryAt, hitem] at hdir
              exact absurd hdir (by simp)

/-! ## Making one directory -/

/-- **Where a directory can be made for a path,** or why it cannot. -/
def vacancy (d : Disk) (p : Path) : Except Fault Location := do
  let t ← d.target p
  match t.name with
  | none => .error .alreadyExists
  | some name =>
    let l ← child t.parent name
    if (d.item? l).isSome then .error .alreadyExists else .ok l

/-- To make a directory is to put it there. -/
theorem makeDirectory_eq (d : Disk) (p : Path) (now : Instant) :
    d.makeDirectory p now = (d.vacancy p).map fun l => d.place l (.directory now) now := by
  unfold makeDirectory vacancy
  cases d.target p with
  | error fault => rfl
  | ok t =>
    cases hname : t.name with
    | none => simp only [hname, bind, Except.bind, Except.map]
    | some name =>
      cases hchild : child t.parent name with
      | error fault => simp only [hname, hchild, bind, Except.bind, Except.map]
      | ok l =>
        simp only [hname, hchild, bind, Except.bind]
        split <;> rfl

theorem makeDirectory_of_vacancy {l : Location} (h : d.vacancy p = .ok l) (now : Instant) :
    d.makeDirectory p now = .ok (d.place l (.directory now) now) := by
  rw [makeDirectory_eq, h]
  rfl

theorem makeDirectory_of_fault {fault : Fault} (h : d.vacancy p = .error fault) (now : Instant) :
    d.makeDirectory p now = .error fault := by
  rw [makeDirectory_eq, h]
  rfl

/-- It depends on where the walk without the last piece leads. -/
theorem vacancy_concat (hr : d.route p = .ok r) {front : List (List Char)} {last : List Char}
    (hpieces : r.pieces = front ++ [last]) :
    d.vacancy p = (d.walk r.origin front).bind fun l =>
      if !d.isDirectoryAt l then .error .notADirectory
      else if isDots last then .error .alreadyExists
      else (child l last).bind fun k =>
        if (d.item? k).isSome then .error .alreadyExists else .ok k := by
  unfold vacancy target
  simp only [hr, hpieces, List.getLast?_concat, List.dropLast_concat, bind, Except.bind]
  cases d.walk r.origin front with
  | error fault => rfl
  | ok l =>
    cases hdir : d.isDirectoryAt l with
    | false => simp [hdir]
    | true => cases isDots last <;> simp [hdir]

theorem reach_concat (hr : d.route p = .ok r) {front : List (List Char)} {last : List Char}
    (hpieces : r.pieces = front ++ [last]) :
    d.reach p = (d.walk r.origin front).bind fun l => d.step l last := by
  rw [reach_of_route hr, hpieces, walk_append]
  congr 1
  funext l
  rw [walk, List.foldlM_cons]
  cases d.step l last <;> rfl

/-- A step goes where a directory would be made. -/
theorem step_eq (d : Disk) (l : Location) (piece : List Char) :
    d.step l piece =
      if !d.isDirectoryAt l then .error .notADirectory
      else if isDots piece then .ok (if piece = ['.'] then l else l.dropLast)
      else (child l piece).bind fun k =>
        if (d.item? k).isSome then .ok k else .error .notFound := by
  unfold step child isDots
  by_cases hhere : piece = ['.']
  · simp [hhere]
  · by_cases hup : piece = ['.', '.']
    · simp [hup]
    · simp only [hhere, hup, if_false, beq_eq_false_iff_ne.mpr hhere, beq_eq_false_iff_ne.mpr hup,
        Bool.or_self, Bool.false_eq_true]
      split
      · rfl
      · split <;> rfl

theorem child_error {l : Location} {name : List Char} {fault : Fault}
    (h : child l name = .error fault) : fault = .nameTooLong := by
  unfold child at h
  split at h
  · exact (Except.error.inj h).symm
  · exact absurd h (by simp)

/-- **Where a directory can be made, and where a walk to it leads.** If something on the way is
missing, it is the directory itself, which can be made then, or what is above it. -/
theorem vacancy_cases (hr : d.route p = .ok r) :
    (∃ l, d.reach p = .ok l ∧ d.vacancy p = .error .alreadyExists) ∨
      (∃ fault, fault ≠ .notFound ∧ d.reach p = .error fault ∧ d.vacancy p = .error fault) ∨
      d.reach p = .error .notFound ∧
      (d.vacancy p = .error .notFound ∨ ∃ l, d.vacancy p = .ok l) := by
  rcases List.eq_nil_or_concat r.pieces with hnil | ⟨front, last, hpieces⟩
  · refine .inl ⟨r.origin, ?_, ?_⟩
    · rw [reach_of_route hr, hnil]
      rfl
    · simp [vacancy, target, hr, hnil, bind, Except.bind]
  · rw [List.concat_eq_append] at hpieces
    rw [reach_concat hr hpieces, vacancy_concat hr hpieces]
    -- Both walk to the parent and differ at the last piece alone.
    cases d.walk r.origin front with
    | error fault =>
      by_cases hfault : fault = .notFound
      · subst hfault
        exact .inr (.inr ⟨rfl, .inl rfl⟩)
      · exact .inr (.inl ⟨fault, hfault, rfl, rfl⟩)
    | ok l =>
      simp only [Except.bind, step_eq]
      cases d.isDirectoryAt l with
      | false => exact .inr (.inl ⟨.notADirectory, by simp, rfl, rfl⟩)
      | true =>
        cases isDots last with
        | true => exact .inl ⟨_, rfl, rfl⟩
        | false =>
          cases hchild : child l last with
          | error fault =>
            obtain rfl := child_error hchild
            exact .inr (.inl ⟨.nameTooLong, by simp, rfl, rfl⟩)
          | ok k =>
            cases hitem : (d.item? k).isSome with
            | true => exact .inl ⟨k, by simp [hitem], by simp [hitem]⟩
            | false => exact .inr (.inr ⟨by simp [hitem], .inr ⟨k, by simp [hitem]⟩⟩)

theorem vacancy_of_missing (hr : d.route p = .ok r) (hreach : d.reach p = .error .notFound) :
    d.vacancy p = .error .notFound ∨ ∃ l, d.vacancy p = .ok l := by
  rcases vacancy_cases hr with ⟨l, hfound, -⟩ | ⟨fault, hfault, hfound, -⟩ | ⟨-, hvacancy⟩
  · exact absurd (hfound.symm.trans hreach) (by simp)
  · exact absurd (Except.error.inj (hfound.symm.trans hreach)) hfault
  · exact hvacancy

/-- **A directory that was made can be reached.** -/
theorem verdict_of_makeDirectory (h : d.makeDirectory p now = .ok d') : d'.verdict p = .ok () := by
  obtain ⟨haltered, hnone, -⟩ := makeDirectory_ok h
  have hdir : ∀ l, d.isDirectoryAt l = true → d'.isDirectoryAt l = true :=
    fun l hl => haltered.isDirectoryAt_mono (by rw [hnone]; simp) hl
  obtain ⟨t, name, ht, hname, h⟩ := named_ok h
  obtain ⟨k, hchild, -⟩ := bind_ok h
  obtain ⟨r, hr, hpieces, hdots, hwalk, hparent, -⟩ := target_cases ht hname
  obtain ⟨hdest, -, -⟩ := target_ok ht hname
  obtain ⟨rfl, -⟩ := child_ok hchild
  have hparent' := hdir _ hparent
  have hwalk' := walk_mono hdir hwalk (by rw [isDirectoryAt_iff.mp hparent']; rfl)
  have hself := haltered.seen_self
  rw [← hdest] at hself
  rw [verdict, reach_concat ((route_congr haltered.start p).trans hr) hpieces, hwalk']
  simp only [Except.bind, step_eq, hparent', hdots, hchild, isSome_item?, hself,
    isDirectoryAt_iff.mpr hself, Bool.not_true, Bool.false_eq_true, if_false, Option.isSome_some,
    if_true]

theorem verdict_of_reach {fault : Fault} (h : d.reach p = .error fault) :
    d.verdict p = .error fault := by
  rw [verdict, h]
  rfl

/-- What stays of a fault when a directory cannot be made is what there is to say about it. -/
theorem verdict_of_vacancy (hr : d.route p = .ok r) {fault : Fault}
    (h : d.vacancy p = .error fault) :
    (if d.isDirectory p then .ok () else .error fault) = d.verdict p := by
  have hdirectory := d.isDirectory_iff p
  have herror (hreach : d.reach p = .error fault) :
      (if d.isDirectory p then .ok () else .error fault) = d.verdict p := by
    rw [verdict_of_reach hreach] at hdirectory ⊢
    exact if_neg fun h => absurd (hdirectory.mp h) (by simp)
  -- What was there already is asked once more whether it is a directory; any other fault is that of
  -- reaching it.
  rcases vacancy_cases hr with ⟨l, hreach, hvacancy⟩ | ⟨fault', -, hreach, hvacancy⟩ |
    ⟨hreach, hvacancy | ⟨l, hvacancy⟩⟩
  · obtain rfl := Except.error.inj (h.symm.trans hvacancy)
    rw [verdict, hreach] at hdirectory ⊢
    simp only [Except.bind] at hdirectory ⊢
    cases hdir : d.isDirectoryAt l with
    | true =>
      rw [hdir] at hdirectory
      rw [if_pos (hdirectory.mpr rfl), if_pos rfl]
    | false =>
      rw [hdir] at hdirectory
      rw [if_neg (fun h => absurd (hdirectory.mp h) (by simp)), if_neg (by decide)]
  · obtain rfl := Except.error.inj (h.symm.trans hvacancy)
    exact herror hreach
  · obtain rfl := Except.error.inj (h.symm.trans hvacancy)
    exact herror hreach
  · rw [hvacancy] at h
    exact absurd h (by simp)

end Verdict

end AltRender.Disk

import AltRender.Proofs.Disk.Making

/-!
# `Proofs/Disk/Rewriting` — a file written once more

A file that was written at a path is read there, and can be written there again: the way to it has
not become longer, and nothing is missing on it. So the directory it is in need not be made a second
time (`makeDirectories_of_target`).

The way to a file that was written is there: what can be put at a path has its parent as a directory
(`verdict_parent?`), and a disk that can reach a directory makes nothing when it is asked to make
it. So writing once more finds the same place, replaces what stands there, and leaves everything
else (`write_again`).
-/

set_option autoImplicit false

namespace AltRender.Disk

open AltRender.Text

variable {d e : Disk} {p : Path} {bytes : List UInt8} {now : Instant}

/-! ## Targets -/

/-- A walk that leads through nothing but points stays where it is. -/
theorem eq_of_walk_here {here : List (List Char)} (hhere : ∀ piece ∈ here, piece = ['.'])
    {l m : Location} (hwalk : d.walk l here = .ok m) : m = l := by
  induction here generalizing l with
  | nil => exact (Except.ok.inj hwalk).symm
  | cons piece rest ih =>
    obtain rfl := hhere piece List.mem_cons_self
    obtain ⟨k, hstep, hrest⟩ := walk_cons hwalk
    obtain rfl := (step_ok (by simp) hstep).2.1
    exact ih (fun piece hpiece => hhere piece (List.mem_cons_of_mem _ hpiece)) hrest

/-- **The directory of what can be put at a path is there.** -/
theorem verdict_parent? {t : Target} {name : List Char} (ht : d.target p = .ok t)
    (hname : t.name = some name) {q : Path} (hq : p.parent? = some q) (hne : q.components ≠ []) :
    d.verdict q = .ok () := by
  obtain ⟨r, hr, hpieces, hdots, hwalk, hparent, -⟩ := target_cases ht hname
  obtain ⟨r', here, last, here', hr', horigin, hsplit, hhere, hhere'⟩ := route_parent? hr hq hne
  -- The name is the last piece, so no points follow it.
  obtain rfl : here' = [] := by
    rcases List.eq_nil_or_concat here' with hnil | ⟨front, piece, hconcat⟩
    · exact hnil
    · rw [List.concat_eq_append] at hconcat
      have hpoint : piece = ['.'] := hhere' piece (by rw [hconcat]; simp)
      have hends : r'.pieces ++ (here ++ last :: here') =
        (r'.pieces ++ here ++ last :: front) ++ [piece] := by
        rw [hconcat]
        simp
      rw [hsplit.symm.trans hpieces] at hends
      obtain rfl := List.singleton_inj.mp (List.append_inj' hends rfl).2
      rw [hpoint] at hdots
      exact absurd hdots (by decide)
  have hfront : r.pieces.dropLast = r'.pieces ++ here := by
    rw [hsplit, ← List.append_assoc, List.dropLast_concat]
  rw [hfront, ← horigin, walk_append] at hwalk
  obtain ⟨m, hwalk', hrest⟩ := bind_ok hwalk
  obtain rfl := eq_of_walk_here hhere hrest
  rw [verdict, reach_of_route hr', hwalk', Except.bind, if_pos hparent]

theorem makeDirectories_of_target {t : Target} {name : List Char} (ht : d.target p = .ok t)
    (hname : t.name = some name) {q : Path} (hq : p.parent? = some q) (now : Instant) :
    d.makeDirectories q now = (.ok (), d) := by
  obtain ⟨parents, hparents⟩ := exists_parents q.components.length q
  rw [makeDirectories, Path.ancestors, hparents]
  by_cases hne : q.components = []
  · exact makeAll_of_empty hne now parents
  · have hverdict := verdict_parent? ht hname hq hne
    have hreach : d.reach q ≠ .error .notFound := by
      intro hmissing
      rw [verdict_of_reach hmissing] at hverdict
      exact absurd hverdict (by simp)
    rw [makeAll_of_reach hne hreach, hverdict]

/-! ## Files -/

/-- **What was written at a path is found and read there.** -/
theorem look_of_write (h : d.write p bytes now = .ok e) : e.look p = .ok (.file bytes now) := by
  obtain ⟨haltered, hfolder⟩ := write_ok h
  obtain ⟨t, name, ht, hname, h⟩ := named_ok h
  split at h
  · exact absurd h (by simp)
  · rename_i hends
    obtain ⟨l, hchild, -⟩ := bind_ok h
    have hself := haltered.seen_self
    have hfind := find_of_target ht hname (by simpa using hends) (child_ok hchild).2 haltered.start
      (fun _ hk => haltered.isDirectoryAt_mono hfolder hk) (by rw [hself]; rfl)
    exact look_of_find hfind (item?_file_iff.mpr hself)

theorem readText_of_write {text : String} (h : d.write p text.toUTF8.data.toList now = .ok e) :
    e.readText p = .ok text := by
  have hread := read_of_look (look_of_write h)
  have htext : String.fromUTF8? ⟨text.toUTF8.data.toList.toArray⟩ = some text := by
    have hbytes : (⟨text.toUTF8.data.toList.toArray⟩ : ByteArray) = text.toByteArray := rfl
    rw [hbytes, String.fromUTF8?, dif_pos text.isValidUTF8]
    rfl
  simp only [readText, hread, htext, bind, Except.bind]

/-- **What was written at a path can be written again.** -/
theorem write_again (h : d.write p bytes now = .ok e) (bytes' : List UInt8) (now' : Instant) :
    ∃ t name e', e.target p = .ok t ∧ t.name = some name ∧ e.write p bytes' now' = .ok e' := by
  obtain ⟨haltered, hfolder⟩ := write_ok h
  obtain ⟨t, name, ht, hname, h⟩ := named_ok h
  split at h
  · exact absurd h (by simp)
  · rename_i hends
    obtain ⟨l, hchild, -⟩ := bind_ok h
    have ht' :=
      target_mono haltered.start (fun _ hk => haltered.isDirectoryAt_mono hfolder hk) ht hname
    obtain ⟨hdest, -, -⟩ := target_ok ht hname
    obtain rfl := (child_ok hchild).1
    have hself := item?_file_iff.mpr haltered.seen_self
    rw [← hdest] at hself
    have hwrite : e.write p bytes' now' =
        .ok { e with items :=
          e.items.insert (t.parent ++ [String.ofList name]) (.file bytes' now') } := by
      simp only [write, ht', hname, hends, hchild, hself, bind, Except.bind, if_false,
        Bool.false_eq_true]
    exact ⟨t, name, _, ht', hname, hwrite⟩

end AltRender.Disk

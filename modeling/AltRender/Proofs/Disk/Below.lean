import AltRender.Cache.Staging
import AltRender.Proofs.Disk.Making

/-!
# `Proofs/Disk/Below` — names below a directory that is made for them

All names below a directory have the same parent, the *entrance*, which may be written with less
than the directory itself (`a/.` has the names of `a`). Once the entrance has been made, the disk is
ready for all of them (`Ready`): to make it again changes nothing, and whether a file can be put
under a name depends on what is there already. Before that, nothing is found under a name that is
not found afterwards, and the other way round (`look_join_iff`).

The directory of a cache may not be there when the first entry is written, and parts of the way to
it may not be there either. So what is found *before* is as important as what can be done *after*.
Paths that go up by `..` are a trap: a directory that is made on the way can be left again, and be
the one below which the entries go. They are therefore required to go up from directories only that
were there before (`Path.ClimbsOn`). What is missing on the way then leads down to its end
(`prefix_of_missing`).
-/

set_option autoImplicit false

namespace AltRender.Disk

open AltRender.Text

/-! ## The entrance -/

/-- The parent that the names below a path have. -/
def Path.entrance (p : Path) : Path := (p.join ⟨"_"⟩).parent?.getD p

theorem plainName_underscore : PlainName "_" := ⟨by decide, by decide, by decide⟩

theorem dropRedundantEnd_append (front : List (List Char)) {name : String} (h : PlainName name) :
    Path.dropRedundantEnd (front ++ [name.toList]) = front ++ [name.toList] := by
  have hredundant : Path.isRedundant name.toList = false := by
    have hdots := h.notDots
    simp only [isDots, Bool.or_eq_false_iff, beq_eq_false_iff_ne] at hdots
    simp [Path.isRedundant, h.notEmpty, hdots.1]
  rw [Path.dropRedundantEnd, List.reverse_concat, List.dropWhile_cons, hredundant]
  simp

namespace Path

variable {p : Path} {name : String}

/-- A name comes after the same pieces as any other. -/
theorem exists_front (p : Path) :
    ∃ front, ∀ name, PlainName name → (p.join ⟨name⟩).pieces = front ++ [name.toList] := by
  by_cases hempty : p.text.toList = []
  · refine ⟨[], fun name h => ?_⟩
    rcases p.toList_join h with ⟨-, htext⟩ | ⟨⟨hne, -⟩, -⟩
    · rw [pieces, htext, hempty]
      exact cut_of_not_mem h.noSlash
    · exact absurd hempty hne
  · by_cases hslash : p.text.toList.getLast? = some '/'
    · obtain ⟨front, hfront⟩ := List.getLast?_eq_some_iff.mp hslash
      refine ⟨cut '/' front, fun name h => ?_⟩
      rcases p.toList_join h with ⟨-, htext⟩ | ⟨⟨-, hne⟩, -⟩
      · rw [pieces, htext, hfront, List.append_assoc, List.singleton_append, cut_append_cons,
          cut_of_not_mem h.noSlash]
      · exact absurd hslash hne
    · refine ⟨p.pieces, fun name h => ?_⟩
      rcases p.toList_join h with ⟨hends, -⟩ | ⟨-, htext⟩
      · exact absurd hends (not_or.mpr ⟨hempty, hslash⟩)
      · rw [pieces, htext, cut_append_cons, cut_of_not_mem h.noSlash]
        rfl

theorem parent?_join_eq (p : Path) {name' : String} (h : PlainName name) (h' : PlainName name') :
    (p.join ⟨name⟩).parent? = (p.join ⟨name'⟩).parent? := by
  obtain ⟨front, hfront⟩ := p.exists_front
  unfold parent?
  rw [hfront name h, hfront name' h']
  cases front with
  | nil => simp [dropRedundantEnd, h.notEmpty, h'.notEmpty]
  | cons first rest =>
    have hdrop : ∀ n, (rest ++ [n]).dropLast = rest := fun n => List.dropLast_concat
    simp only [List.cons_append, dropRedundantEnd_append rest h, dropRedundantEnd_append rest h']
    cases rest with
    | nil => rfl
    | cons next rest =>
      simp only [List.cons_append] at hdrop ⊢
      simp only [hdrop]

theorem exists_parent?_join (p : Path) (h : PlainName name) :
    ∃ q, (p.join ⟨name⟩).parent? = some q := by
  obtain ⟨front, hfront⟩ := p.exists_front
  unfold parent?
  rw [hfront name h]
  cases front with
  | nil => simp [dropRedundantEnd, h.notEmpty]
  | cons first rest =>
    simp only [List.cons_append, dropRedundantEnd_append rest h]
    split
    · rename_i hnil
      exact absurd hnil (by simp)
    · split
      · split <;> exact ⟨_, rfl⟩
      · exact ⟨_, rfl⟩

/-- **A name plays no part in what is above it.** -/
theorem parent?_join (p : Path) (h : PlainName name) :
    (p.join ⟨name⟩).parent? = some p.entrance := by
  obtain ⟨q, hq⟩ := p.exists_parent?_join plainName_underscore
  rw [p.parent?_join_eq h plainName_underscore, entrance, hq]
  rfl

theorem components_entrance (p : Path) : p.entrance.components = p.components := by
  rw [components_parent? (p.parent?_join plainName_underscore),
    components_join p plainName_underscore, List.dropLast_concat]

theorem destination_entrance (p : Path) (start : Location) :
    p.entrance.destination start = p.destination start := by
  rw [destination, destination, components_entrance]

theorem isAbsolute_join (p : Path) (h : PlainName name) :
    (p.join ⟨name⟩).isAbsolute = p.isAbsolute := by
  rw [isAbsolute, isAbsolute]
  rcases p.toList_join h with ⟨hempty | hslash, htext⟩ | ⟨⟨hne, -⟩, htext⟩
  · rw [htext, hempty, List.nil_append]
    exact h.isAbsolute
  · obtain ⟨front, hfront⟩ := List.getLast?_eq_some_iff.mp hslash
    rw [htext, hfront, List.append_assoc, List.head?_append, List.head?_append]
    cases front <;> rfl
  · obtain ⟨c, cs, hcs⟩ := List.exists_cons_of_ne_nil hne
    rw [htext, hcs]
    rfl

/-- The entrance has the pieces of the directory, but for some dots at the end. -/
theorem pieces_entrance (p : Path) :
    ∃ here, p.pieces.filter (fun piece => !piece.isEmpty) =
        p.entrance.pieces.filter (fun piece => !piece.isEmpty) ++ here ∧
      (∀ piece ∈ here, piece = ['.']) ∧ p.entrance.isAbsolute = p.isAbsolute := by
  obtain ⟨here, last, here', hpieces, hhere, hhere', habs⟩ :=
    pieces_parent? (p.parent?_join plainName_underscore)
  rw [filter_pieces_join p plainName_underscore] at hpieces
  refine ⟨here, ?_, hhere, habs.trans (p.isAbsolute_join plainName_underscore)⟩
  rcases List.eq_nil_or_concat here' with rfl | ⟨front, dot, rfl⟩
  · rw [← List.append_assoc] at hpieces
    exact (List.append_inj' hpieces rfl).1
  · -- What the path of a name ends in is the name, and no dot.
    rw [List.concat_eq_append, ← List.cons_append, ← List.append_assoc, ← List.append_assoc]
      at hpieces
    have hlast := List.singleton_inj.mp (List.append_inj' hpieces rfl).2
    rw [hhere' dot (by simp)] at hlast
    exact absurd hlast (by decide)

end Path

/-! ## Approaching a directory -/

/-- Where the way to a directory leads, whether or not its text is fit for a path. -/
def approach (d : Disk) (p : Path) : Except Fault Location :=
  d.walk (if p.isAbsolute then [] else d.start) (p.pieces.filter fun piece => !piece.isEmpty)

section Approach

variable {d e : Disk} {p : Path} {name : String} {r : Route}

theorem route_join (h : PlainName name) (hr : d.route (p.join ⟨name⟩) = .ok r) :
    r.origin = (if p.isAbsolute then [] else d.start) ∧
      r.pieces = p.pieces.filter (fun piece => !piece.isEmpty) ++ [name.toList] := by
  obtain ⟨horigin, hpieces, -⟩ := route_ok hr
  exact ⟨by rw [horigin, p.isAbsolute_join h], by rw [hpieces, filter_pieces_join p h]⟩

theorem approach_of_route (h : PlainName name) (hr : d.route (p.join ⟨name⟩) = .ok r) :
    d.approach p = d.walk r.origin r.pieces.dropLast := by
  obtain ⟨horigin, hpieces⟩ := route_join h hr
  rw [approach, horigin, hpieces, List.dropLast_concat]

/-- What a name is in is approached by a walk, if it has a route. -/
theorem target_join (h : PlainName name) (hr : d.route (p.join ⟨name⟩) = .ok r) {l : Location}
    (happroach : d.approach p = .ok l) :
    d.target (p.join ⟨name⟩) =
      if !d.isDirectoryAt l then .error .notADirectory else .ok ⟨l, some name.toList, false⟩ := by
  rw [approach_of_route h hr] at happroach
  have hlast : r.pieces.getLast? = some name.toList := by
    rw [(route_join h hr).2, List.getLast?_concat]
  simp only [target, hr, hlast, happroach, h.notDots, endsInSlash_join h hr, bind, Except.bind,
    Bool.false_eq_true, if_false]

end Approach

/-! ## A disk that is ready -/

/-- **A disk is ready for the names below a directory:** their entrance is there, or they are where
the disk starts. -/
def Ready (d : Disk) (p : Path) : Prop :=
  p.components = [] ∨ d.verdict p.entrance = .ok ()

section Ready

variable {d e : Disk} {p : Path} {name : String}

theorem verdict_ok (h : d.verdict p = .ok ()) :
    ∃ r, d.route p = .ok r ∧ d.walk r.origin r.pieces = .ok (p.destination d.start) ∧
      d.isDirectoryAt (p.destination d.start) = true := by
  cases hr : d.route p with
  | error fault =>
    rw [verdict, reach, hr] at h
    exact absurd h (by simp [Except.bind])
  | ok r =>
    rw [verdict, reach_of_route hr] at h
    cases hwalk : d.walk r.origin r.pieces with
    | error fault =>
      rw [hwalk] at h
      exact absurd h (by simp [Except.bind])
    | ok l =>
      obtain rfl : l = p.destination d.start := by
        rw [walk_ok (ne_nil_of_mem_route hr) hwalk, foldl_route hr]
      rw [hwalk] at h
      refine ⟨r, rfl, hwalk, ?_⟩
      cases hdir : d.isDirectoryAt (p.destination d.start) with
      | true => rfl
      | false =>
        simp only [Except.bind, hdir] at h
        exact absurd h (by simp)

theorem verdict_of_walk {r : Route} (hr : d.route p = .ok r) {l : Location}
    (hwalk : d.walk r.origin r.pieces = .ok l) (hdir : d.isDirectoryAt l = true) :
    d.verdict p = .ok () := by
  rw [verdict, reach_of_route hr, hwalk, Except.bind, if_pos hdir]

theorem verdict_mono (hstart : e.start = d.start)
    (hdir : ∀ l, d.isDirectoryAt l = true → e.isDirectoryAt l = true) (h : d.verdict p = .ok ()) :
    e.verdict p = .ok () := by
  obtain ⟨r, hr, hwalk, hthere⟩ := verdict_ok h
  have hthere' := hdir _ hthere
  exact verdict_of_walk ((route_congr hstart p).trans hr)
    (walk_mono hdir hwalk (by rw [isDirectoryAt_iff.mp hthere']; rfl)) hthere'

theorem Ready.mono (h : d.Ready p) (hstart : e.start = d.start)
    (hdir : ∀ l, d.isDirectoryAt l = true → e.isDirectoryAt l = true) : e.Ready p :=
  h.imp_right fun hverdict => verdict_mono hstart hdir hverdict

/-- A path that stays where it starts has nothing to walk. -/
theorem approach_of_empty (h : p.components = []) : d.approach p = .ok (p.destination d.start) := by
  have hp := Path.pieces_of_components h
  have habs : p.isAbsolute = false := by
    rw [Bool.eq_false_iff]
    exact fun habs => ((Path.isAbsolute_iff hp).mp habs).2 rfl
  rw [approach, hp, habs, Path.destination, h]
  rfl

theorem Ready.approach (h : d.Ready p) : d.approach p = .ok (p.destination d.start) := by
  rcases h with hempty | hverdict
  · exact approach_of_empty hempty
  · obtain ⟨r, hr, hwalk, hdir⟩ := verdict_ok hverdict
    obtain ⟨horigin, hpieces, -⟩ := route_ok hr
    obtain ⟨here, hhere, hdots, habs⟩ := p.pieces_entrance
    rw [p.destination_entrance] at hwalk hdir
    rw [horigin, hpieces, habs] at hwalk
    rw [Disk.approach, hhere, walk_append_ok hwalk, walk_here hdir hdots]

/-- **To make the entrance again changes nothing.** -/
theorem Ready.makeDirectories (h : d.Ready p) (now : Instant) :
    d.makeDirectories p.entrance now = (.ok (), d) := by
  obtain ⟨parents, hparents⟩ := exists_parents p.entrance.components.length p.entrance
  rw [Disk.makeDirectories, Path.ancestors, hparents]
  by_cases hempty : p.components = []
  · exact makeAll_of_empty ((p.components_entrance).trans hempty) now parents
  · have hverdict := h.resolve_left hempty
    have hreach : d.reach p.entrance ≠ .error .notFound := by
      intro hreach
      rw [verdict_of_reach hreach] at hverdict
      exact absurd hverdict (by simp)
    rw [makeAll_of_reach (by rwa [p.components_entrance]) hreach, hverdict]

theorem Path.ClimbsOn.entrance (h : p.ClimbsOn d) : p.entrance.ClimbsOn d := by
  intro front hfront
  rw [p.components_entrance] at hfront
  exact h front hfront

theorem ready_of_makeDirectories (htree : d.IsTree) (hclimbs : p.ClimbsOn d) {now : Instant}
    (h : d.makeDirectories p.entrance now = (.ok (), e)) : e.Ready p := by
  by_cases hempty : p.components = []
  · exact .inl hempty
  · exact .inr (verdict_makeAll htree hclimbs.entrance (by rwa [p.components_entrance]) h)

/-- **Where a file can be put below a directory that is ready** depends on which directories are
there. -/
theorem Ready.fileSlot (h : d.Ready p) (h' : e.Ready p) (hstart : e.start = d.start)
    (hdir : ∀ l, e.isDirectoryAt l = d.isDirectoryAt l) (hname : PlainName name) :
    e.fileSlot (p.join ⟨name⟩) = d.fileSlot (p.join ⟨name⟩) := by
  cases hr : d.route (p.join ⟨name⟩) with
  | error fault =>
    simp only [Disk.fileSlot, target, route_congr hstart, hr, bind, Except.bind]
  | ok r =>
    have happroach := h'.approach
    rw [hstart] at happroach
    simp only [Disk.fileSlot, target_join hname hr h.approach,
      target_join hname ((route_congr hstart _).trans hr) happroach, hdir]

end Ready

/-! ## What is found below a directory -/

section Look

variable {d e : Disk} {p : Path} {name : String}

theorem Path.ClimbsOn.join (h : p.ClimbsOn d) (hname : PlainName name) :
    (p.join ⟨name⟩).ClimbsOn d := by
  intro front hfront
  rw [Path.components_join p hname] at hfront
  rcases List.prefix_concat_iff.mp hfront with heq | hfront
  · exact absurd (List.singleton_inj.mp (List.append_inj' heq rfl).2) (by simp)
  · exact h front hfront

/-- **What is found under a name is what was found there,** if what is there is the same. -/
theorem look_join_iff (htree : d.IsTree) (hclimbs : p.ClimbsOn d) (hname : PlainName name)
    (hstart : e.start = d.start) (hdir : ∀ l, d.isDirectoryAt l = true → e.isDirectoryAt l = true)
    (hitem : e.item? (p.destination d.start ++ [name]) = d.item? (p.destination d.start ++ [name]))
    {item : Item} : e.look (p.join ⟨name⟩) = .ok item ↔ d.look (p.join ⟨name⟩) = .ok item := by
  have hplace := Path.destination_join d.start p hname
  have hseen : e.seen (p.destination d.start ++ [name]) =
    d.seen (p.destination d.start ++ [name]) := by
    rw [seen, seen, hitem]
  constructor
  · intro hlook
    obtain ⟨hfind, hthere⟩ := look_ok hlook
    rw [hstart, hplace] at hfind hthere
    rw [hitem] at hthere
    obtain ⟨r, hr', hwalk, -⟩ := find_cases hfind
    have hr := (route_congr hstart _).symm.trans hr'
    obtain ⟨-, hpieces⟩ := route_join hname hr
    rw [hpieces] at hwalk
    obtain ⟨l, hfront, hstep⟩ := walk_concat hwalk
    -- The name is in a directory that was there before, and was reached before.
    have hl : l ++ [name] = p.destination d.start ++ [name] := by
      obtain ⟨-, hl, -⟩ := step_ok hname.notEmpty hstep
      rw [hl, hname.onwardPiece]
    obtain ⟨rfl, -⟩ := List.append_inj' hl rfl
    have hsome : (d.seen (p.destination d.start ++ [name])).isSome = true := by
      rw [seen, hthere]
      rfl
    obtain ⟨item', hitem'⟩ := Option.isSome_iff_exists.mp hsome
    have hhome := htree.parent hitem'
    have hbefore :=
      walk_of_grown htree (hclimbs.join hname) hr (hpieces ▸ List.prefix_append _ _) hfront hhome
    have hwalk' : d.walk r.origin r.pieces = .ok (p.destination d.start ++ [name]) := by
      rw [hpieces, walk_append_ok hbefore, walk, List.foldlM_cons, step_mono hhome hstep hsome]
      rfl
    have hfind' : d.find (p.join ⟨name⟩) = .ok (p.destination d.start ++ [name]) := by
      simp only [find, hr, hwalk', endsInSlash_join hname hr, bind, Except.bind, Bool.false_and,
        Bool.false_eq_true, if_false]
    exact look_of_find hfind' hthere
  · intro hlook
    obtain ⟨hfind, hthere⟩ := look_ok hlook
    rw [hplace] at hfind hthere
    have hsome : (e.seen (p.destination d.start ++ [name])).isSome = true := by
      rw [hseen, seen, hthere]
      rfl
    exact look_of_find (find_mono hstart hdir hfind hsome) (hitem.trans hthere)

end Look

/-! ## What is made for a directory is above it -/

section Made

variable {d e : Disk} {p : Path} {name : String}

theorem component?_ne_root (piece : List Char) : Path.component? piece ≠ some .root := by
  unfold Path.component?
  split
  · simp
  · split <;> simp

/-- The top stands at the start of a path only. -/
theorem Path.root_not_mem {front rest : List Component} (h : p.components = front ++ rest)
    (hfront : front ≠ []) : Component.root ∉ rest := by
  obtain ⟨first, others, hp⟩ := p.pieces_eq_cons
  rw [components_eq hp] at h
  have hothers : ∀ cs, cs <:+ others.filterMap component? → Component.root ∉ cs := by
    intro cs hcs hmem
    obtain ⟨piece, -, hpiece⟩ := List.mem_filterMap.mp (hcs.subset hmem)
    exact component?_ne_root piece hpiece
  refine hothers rest ?_
  obtain ⟨c, front, rfl⟩ := List.exists_cons_of_ne_nil hfront
  have hlead : (leadOf first others).length ≤ 1 := by
    by_cases hfirst : first = []
    · subst hfirst
      unfold leadOf
      split <;> split <;> simp
    · exact length_leadOf hfirst others
  match hl : leadOf first others, hlead with
  | [], _ =>
    rw [hl, List.nil_append] at h
    exact h ▸ List.suffix_append _ _
  | [_], _ =>
    rw [hl, List.cons_append, List.cons_append, List.nil_append] at h
    exact (List.cons.inj h).2 ▸ List.suffix_append _ _

/-- **What is missing on the way of a path leads down to its end,** because the path does not go up
from there. -/
theorem prefix_of_missing (htree : d.IsTree) (hclimbs : p.ClimbsOn d) {front rest : List Component}
    (h : p.components = front ++ rest) (hfront : front ≠ [])
    (hmissing : d.seen (front.foldl onward d.start) = none) :
    front.foldl onward d.start <+: p.destination d.start := by
  have hroot := Path.root_not_mem h hfront
  -- The way stays below what is missing, since it goes up from directories only and none is below.
  have hall : ∀ cs, cs <+: rest →
    front.foldl onward d.start <+: (front ++ cs).foldl onward d.start := by
    intro cs
    induction cs using List.reverseRecOn with
    | nil =>
      intro _
      simp
    | append_singleton cs c ih =>
      intro hcs
      have hbefore := ih ((List.prefix_append _ _).trans hcs)
      rw [← List.append_assoc, List.foldl_append]
      cases c with
      | root => exact absurd (hcs.subset (by simp)) hroot
      | here => exact hbefore
      | name s => exact hbefore.trans (List.prefix_append _ _)
      | up =>
        have hdir := hclimbs (front ++ cs) (by
          rw [h, List.append_assoc]
          exact (List.prefix_append_right_inj front).mpr hcs)
        have hthere := htree.isDirectoryAt_of_prefix hbefore hdir
        rw [isDirectoryAt_iff, hmissing] at hthere
        exact absurd hthere (by simp)
  rw [Path.destination, h]
  exact hall rest (List.prefix_refl rest)

theorem item?_stamp (d : Disk) {l k : Location} (h : k ≠ l) (now : Instant) :
    (d.stamp l now).item? k = d.item? k := by
  unfold stamp
  split
  · rw [item?, item?, Keyed.get?_insert, if_neg (Ne.symm h)]
  · rfl

theorem item?_place (d : Disk) {l k : Location} (h : k ≠ l) (h' : k ≠ l.dropLast) (item : Item)
    (now : Instant) : (d.place l item now).item? k = d.item? k := by
  rw [place, item?_stamp _ h', item?, item?, Keyed.get?_insert, if_neg (Ne.symm h)]

/-- What is put on a disk is put below what it stamps, and the two are all that changes. -/
theorem item?_place_above (d : Disk) {l home : Location} (h : l <+: home) (item : Item)
    (now : Instant) (name : String) :
    (d.place l item now).item? (home ++ [name]) = d.item? (home ++ [name]) := by
  have hlength := h.length_le
  refine item?_place d ?_ ?_ item now
  · rintro rfl
    rw [List.length_append, List.length_singleton] at hlength
    omega
  · intro heq
    have hbelow := congrArg List.length heq
    rw [List.length_append, List.length_singleton, List.length_dropLast] at hbelow
    omega

/-- **What holds of a disk and is kept by each directory that is made holds when all are made.** -/
theorem makeAll_induction {P : Disk → Prop} {now : Instant} {paths : List Path} (h : P d)
    (hmade : ∀ q ∈ paths, q.components ≠ [] → ∀ b l, P b → b.vacancy q = .ok l →
      P (b.place l (.directory now) now)) : P (makeAll now paths d).2 := by
  induction paths with
  | nil => exact h
  | cons q parents ih =>
    have hparents := ih fun q' hq' => hmade q' (List.mem_cons_of_mem _ hq')
    by_cases hempty : q.components = []
    · rw [makeAll_of_empty hempty]
      exact h
    · have hq := hmade q List.mem_cons_self hempty
      -- A round places one directory at most: at once where its parent is there, or else behind
      -- those that the parents needed.
      cases hvacancy : d.vacancy q with
      | ok l =>
        rw [makeAll_of_made hempty (makeDirectory_of_vacancy hvacancy now)]
        exact hq d l h hvacancy
      | error fault =>
        by_cases hfault : fault = .notFound
        · subst hfault
          rw [makeAll_of_missing hempty hvacancy]
          generalize makeAll now parents d = above at hparents ⊢
          obtain ⟨result, d₁⟩ := above
          cases result with
          | error fault => exact hparents
          | ok u =>
            cases hvacancy' : d₁.vacancy q with
            | ok l =>
              simp only [makeDirectory_of_vacancy hvacancy' now]
              exact hq d₁ l hparents hvacancy'
            | error fault =>
              simp only [makeDirectory_of_fault hvacancy' now]
              exact hparents
        · rw [makeAll_of_fault hempty hfault hvacancy]
          exact h

/-- **Making the entrance adds directories above the names,** and leaves what stands under a name as
it is, its time included. -/
theorem makeDirectories_above (htree : d.IsTree) (hclimbs : p.ClimbsOn d) (now : Instant) :
    Grown (· <+: p.destination d.start) d (d.makeDirectories p.entrance now).2 ∧
      ∀ name, (d.makeDirectories p.entrance now).2.item? (p.destination d.start ++ [name]) =
        d.item? (p.destination d.start ++ [name]) := by
  refine @makeAll_induction d (fun b => Grown (· <+: p.destination d.start) d b ∧
    ∀ name, b.item? (p.destination d.start ++ [name]) =
      d.item? (p.destination d.start ++ [name])) now _
    ⟨Grown.refl _ d, fun _ => rfl⟩ ?_
  rintro q hq hne b l ⟨hgrown, hitem⟩ hvacancy
  obtain ⟨hl, hnone, -⟩ := vacancy_ok hvacancy
  rw [hgrown.start] at hl
  -- What is missing even now was missing before.
  have hmissing : d.seen (q.destination d.start) = none := by
    by_contra hsome
    obtain ⟨item, hitem⟩ := Option.ne_none_iff_exists'.mp hsome
    rw [hl, hgrown.kept _ _ hitem] at hnone
    exact absurd hnone (by simp)
  obtain ⟨rest, hrest⟩ := Path.components_of_mem_ancestors hq
  rw [p.components_entrance] at hrest
  have habove : q.destination d.start <+: p.destination d.start :=
    prefix_of_missing htree hclimbs hrest.symm hne hmissing
  have hmade := makeDirectory_of_vacancy hvacancy now
  refine ⟨hgrown.trans (grown_of_makeDirectory ?_ hmade), fun name => ?_⟩
  · rwa [hgrown.start]
  · exact (item?_place_above b (hl ▸ habove) _ now name).trans (hitem name)

end Made

end AltRender.Disk

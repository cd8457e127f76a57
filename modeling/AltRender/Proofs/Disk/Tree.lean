import AltRender.Proofs.Disk.Asking

/-!
# `Proofs/Disk/Tree` — walks on a disk with more directories

On a disk where everything is in a directory, a walk knows little more once directories have been
made: what it leads to then is one of them, or it led there before (`walk_grown_cases`). This needs
a path that goes up by `..` only from directories that were there before, since any other can come
back to where it would not have come.

Two relations between disks are used. *Looking the same* leaves only the times of directories open,
and whatever is asked about paths has the same answer then (`Looks.walk`, `Looks.target`). *Growing*
is having more directories. It is the second that needs the tree: without it a directory could be
made above something that was there already and out of reach, and a walk would then come to what it
did not find before.
-/

set_option autoImplicit false

namespace AltRender.Disk

open AltRender.Text

/-! ## Trees -/

/-- Whatever is on the disk is in a directory. -/
def IsTree (d : Disk) : Prop :=
  ∀ l, (d.seen l).isSome = true → d.isDirectoryAt l.dropLast = true

theorem IsTree.parent {d : Disk} (h : d.IsTree) {l : Location} {name : String} {item : Item}
    (hseen : d.seen (l ++ [name]) = some item) : d.isDirectoryAt l = true := by
  have hparent := h (l ++ [name]) (by rw [hseen]; rfl)
  rwa [List.dropLast_concat] at hparent

theorem IsTree.isDirectoryAt_of_prefix {d : Disk} (h : d.IsTree) {l m : Location} (hlm : l <+: m)
    (hm : d.isDirectoryAt m = true) : d.isDirectoryAt l = true := by
  obtain ⟨rest, rfl⟩ := hlm
  induction rest using List.reverseRecOn with
  | nil => rwa [List.append_nil] at hm
  | append_singleton rest name ih =>
    rw [← List.append_assoc] at hm
    exact ih (h.parent (isDirectoryAt_iff.mp hm))

/-! ## Disks that look the same -/

/-- **Two disks look the same:** they differ in the times of directories only. -/
structure Looks (d d' : Disk) : Prop where
  start : d'.start = d.start
  seen : d'.seen = d.seen

theorem Looks.refl (d : Disk) : Looks d d := ⟨rfl, rfl⟩

theorem Looks.isDirectoryAt {d d' : Disk} (h : Looks d d') (l : Location) :
    d'.isDirectoryAt l = d.isDirectoryAt l :=
  isDirectoryAt_congr (congrFun h.seen l)

theorem Looks.isSome_item? {d d' : Disk} (h : Looks d d') (l : Location) :
    (d'.item? l).isSome = (d.item? l).isSome := by
  rw [Disk.isSome_item?, Disk.isSome_item?, h.seen]

theorem Looks.walk {d d' : Disk} (h : Looks d d') (l : Location) (pieces : List (List Char)) :
    d'.walk l pieces = d.walk l pieces := by
  have hstep : d'.step = d.step := by
    funext l piece
    simp only [step, h.isDirectoryAt, h.isSome_item?]
  rw [Disk.walk, Disk.walk, hstep]

theorem Looks.target {d d' : Disk} (h : Looks d d') (p : Path) : d'.target p = d.target p := by
  simp only [Disk.target, route_congr h.start, h.walk, h.isDirectoryAt]

/-! ## Going on with a walk -/

theorem walk_append (d : Disk) (l : Location) (front rest : List (List Char)) :
    d.walk l (front ++ rest) = (d.walk l front).bind fun m => d.walk m rest := by
  rw [walk, List.foldlM_append]
  rfl

theorem walk_append_error {d : Disk} {l : Location} {front : List (List Char)} {fault : Fault}
    (h : d.walk l front = .error fault) (rest : List (List Char)) :
    d.walk l (front ++ rest) = .error fault := by
  rw [walk_append, h]
  rfl

theorem walk_append_ok {d : Disk} {l m : Location} {front : List (List Char)}
    (h : d.walk l front = .ok m) (rest : List (List Char)) :
    d.walk l (front ++ rest) = d.walk m rest := by
  rw [walk_append, h]
  rfl

/-- What is not a directory is the end of a walk. -/
theorem walk_cons_of_not_directory {d : Disk} {l : Location} (h : d.isDirectoryAt l = false)
    (piece : List Char) (rest : List (List Char)) :
    d.walk l (piece :: rest) = .error .notADirectory := by
  rw [walk, List.foldlM_cons, step, h]
  rfl

theorem walk_here {d : Disk} {l : Location} (h : d.isDirectoryAt l = true)
    {pieces : List (List Char)} (hpieces : ∀ piece ∈ pieces, piece = ['.']) :
    d.walk l pieces = .ok l := by
  induction pieces with
  | nil => rfl
  | cons piece rest ih =>
    rw [walk, List.foldlM_cons, step, h, hpieces piece List.mem_cons_self]
    exact ih fun piece hpiece => hpieces piece (List.mem_cons_of_mem _ hpiece)

/-! ## Where a path goes up -/

/-- **A path goes up only from directories that are there.** -/
def Path.ClimbsOn (p : Path) (d : Disk) : Prop :=
  ∀ front, front ++ [.up] <+: p.components → d.isDirectoryAt (front.foldl onward d.start) = true

/-- The components of a path are those of its pieces, after what stands for its start. -/
theorem Path.exists_lead (p : Path) : ∃ lead, p.components = lead ++ p.pieces.filterMap component? ∧
    ∀ start, lead.foldl onward start = if p.isAbsolute then [] else start := by
  obtain ⟨first, rest, hp⟩ := p.pieces_eq_cons
  cases habs : p.isAbsolute with
  | true =>
    refine ⟨[.root], ?_, fun start => rfl⟩
    simp only [components, hp, habs, first_of_isAbsolute hp habs, if_true]
    rfl
  | false =>
    by_cases hfirst : first = ['.']
    · refine ⟨[.here], ?_, fun start => rfl⟩
      simp only [components, hp, habs, hfirst, Bool.false_eq_true, if_false, if_true]
      rfl
    · refine ⟨[], ?_, fun start => rfl⟩
      simp only [components, hp, habs, hfirst, Bool.false_eq_true, if_false, List.filterMap_cons,
        List.nil_append]
      cases component? first <;> rfl

/-- Where the first pieces of a route lead, the first components lead. -/
theorem components_of_route {d : Disk} {p : Path} {r : Route} (hr : d.route p = .ok r)
    (front : List (List Char)) :
    ∃ cs, cs.foldl onward d.start = front.foldl onwardPiece r.origin ∧
      ∀ rest, front ++ rest <+: r.pieces →
      cs ++ rest.filterMap Path.component? <+: p.components := by
  obtain ⟨lead, hlead, hstart⟩ := p.exists_lead
  obtain ⟨horigin, hpieces, -⟩ := route_ok hr
  refine ⟨lead ++ front.filterMap Path.component?, ?_, fun rest hrest => ?_⟩
  · rw [List.foldl_append, hstart, ← horigin, ← foldl_onwardPiece]
  · have hmap := hrest.filterMap Path.component?
    rw [hpieces, filterMap_component?_filter, List.filterMap_append] at hmap
    rw [hlead, List.append_assoc]
    exact (List.prefix_append_right_inj lead).mpr hmap

/-- The same for the pieces that a walk goes through. -/
theorem Path.ClimbsOn.pieces {d : Disk} {p : Path} (h : p.ClimbsOn d) {r : Route}
    (hr : d.route p = .ok r) {front : List (List Char)}
    (hfront : front ++ [['.', '.']] <+: r.pieces) :
    d.isDirectoryAt (front.foldl onwardPiece r.origin) = true := by
  obtain ⟨cs, hplace, hcomponents⟩ := components_of_route hr front
  rw [← hplace]
  exact h cs (hcomponents _ hfront)

/-- The place of a name is the directory it is in and the name. -/
theorem foldl_onwardPiece_concat (front : List (List Char)) (piece : List Char) (l : Location) :
    (front ++ [piece]).foldl onwardPiece l = onwardPiece (front.foldl onwardPiece l) piece := by
  rw [List.foldl_append]
  rfl

theorem dots_or_name {piece : List Char} (h : piece ≠ []) (l : Location) :
    piece = ['.'] ∧ onwardPiece l piece = l ∨ piece = ['.', '.'] ∧
    onwardPiece l piece = l.dropLast ∨
      isDots piece = false ∧ onwardPiece l piece = l ++ [String.ofList piece] := by
  by_cases hhere : piece = ['.']
  · subst hhere
    exact .inl ⟨rfl, rfl⟩
  · by_cases hup : piece = ['.', '.']
    · subst hup
      exact .inr (.inl ⟨rfl, rfl⟩)
    · refine .inr (.inr ⟨by simp [isDots, hhere, hup], ?_⟩)
      simp [onwardPiece, Path.component?, Path.isRedundant, h, hhere, hup, onward]

section Climbs

variable {d d' : Disk} {p : Path} {r : Route}

/-- **What a walk leads to on a disk with more directories, it leads to on the disk itself,** if a
directory was there. -/
theorem walk_of_grown (htree : d.IsTree) (hclimbs : p.ClimbsOn d) (hr : d.route p = .ok r)
    {pieces : List (List Char)} (hpieces : pieces <+: r.pieces) {m : Location}
    (hwalk : d'.walk r.origin pieces = .ok m) (hm : d.isDirectoryAt m = true) :
    d.walk r.origin pieces = .ok m := by
  induction pieces using List.reverseRecOn generalizing m with
  | nil => exact hwalk
  | append_singleton front piece ih =>
    have hne : ∀ x ∈ front ++ [piece], x ≠ [] :=
      fun x hx => ne_nil_of_mem_route hr x (hpieces.subset hx)
    obtain ⟨l, hfront, hstep⟩ := walk_concat hwalk
    have hl := walk_ok (fun x hx => hne x (List.mem_append_left _ hx)) hfront
    have hpiece := hne piece (List.mem_append_right _ List.mem_cons_self)
    obtain ⟨-, rfl, -⟩ := step_ok hpiece hstep
    -- The directory that the last step leaves was there before.
    have hdir : d.isDirectoryAt l = true := by
      rcases dots_or_name hpiece l with ⟨-, hsame⟩ | ⟨rfl, -⟩ | ⟨-, hname⟩
      · rwa [hsame] at hm
      · rw [hl]
        exact hclimbs.pieces hr hpieces
      · rw [hname] at hm
        exact htree.parent (isDirectoryAt_iff.mp hm)
    have hbefore := ih ((List.prefix_append _ _).trans hpieces) hfront hdir
    rw [walk_append_ok hbefore, walk, List.foldlM_cons]
    rw [step_mono hdir hstep (by rw [isDirectoryAt_iff.mp hm]; rfl)]
    rfl

/-- **A walk that leads somewhere only since directories were made leads to a directory.** -/
theorem walk_grown_cases (htree : d.IsTree) (hclimbs : p.ClimbsOn d) (hr : d.route p = .ok r)
    {place : Location → Prop} (hgrown : Grown place d d') {pieces : List (List Char)}
    (hpieces : pieces <+: r.pieces) {m : Location} (hwalk : d'.walk r.origin pieces = .ok m) :
    d'.isDirectoryAt m = true ∨ d.walk r.origin pieces = .ok m := by
  rcases List.eq_nil_or_concat pieces with rfl | ⟨front, piece, rfl⟩
  · exact .inr hwalk
  · rw [List.concat_eq_append] at hpieces hwalk ⊢
    have hne : ∀ x ∈ front ++ [piece], x ≠ [] :=
      fun x hx => ne_nil_of_mem_route hr x (hpieces.subset hx)
    obtain ⟨l, hfront, hstep⟩ := walk_concat hwalk
    have hl := walk_ok (fun x hx => hne x (List.mem_append_left _ hx)) hfront
    have hpiece := hne piece (List.mem_append_right _ List.mem_cons_self)
    obtain ⟨hdir', rfl, hthere⟩ := step_ok hpiece hstep
    -- By the last piece: a dot stays where it was, two dots go up to what was there all along, and
    -- a name may be one that has grown.
    rcases dots_or_name hpiece l with ⟨-, hsame⟩ | ⟨rfl, hup⟩ | ⟨hdots, hname⟩
    · rw [hsame]
      exact .inl hdir'
    · have hdir : d.isDirectoryAt l = true := by
        rw [hl]
        exact hclimbs.pieces hr hpieces
      rw [hup]
      exact .inl (isDirectoryAt_iff.mpr (hgrown.kept _ _ (isDirectoryAt_iff.mp
        (htree.isDirectoryAt_of_prefix (List.dropLast_prefix l) hdir))))
    · rw [hname] at hthere hstep ⊢
      rw [isSome_item?, hdots, Bool.false_eq_true, or_false] at hthere
      obtain ⟨item, hitem⟩ := Option.isSome_iff_exists.mp hthere
      rcases hgrown.new _ _ hitem with hold | ⟨rfl, -⟩
      · have hdir := htree.parent hold
        have hbefore :=
          walk_of_grown htree hclimbs hr ((List.prefix_append _ _).trans hpieces) hfront hdir
        right
        rw [walk_append_ok hbefore, walk, List.foldlM_cons]
        rw [step_mono hdir hstep (by rw [hold]; rfl)]
        rfl
      · exact .inl (isDirectoryAt_iff.mpr hitem)

end Climbs

end AltRender.Disk

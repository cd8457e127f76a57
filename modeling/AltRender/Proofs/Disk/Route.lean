import AltRender.Disk.Region
import Mathlib.Data.List.Induction

/-!
# `Proofs/Disk/Route` — where a path leads

Where a path leads is read off its components alone: its *destination*. A walk on a disk may end
early, where a name is missing or a file stands in the way; if it does not, it ends at the
destination (`find_ok`, `target_ok`). So what is known about the texts of two paths, one outside the
directory that the other leads to, say, is known about what is done through them.

Routes are in between. A route is what a path is turned into before it is walked: an origin, the
pieces that are not empty, and whether a slash ends the path. A text that is empty, too long, or has
a character that no path has does not get one (`Path.Fit`). The pieces of a route lead where the
components of the path do (`foldl_route`), because a dot leads nowhere in either of them.
-/

set_option autoImplicit false

namespace AltRender.Disk

open AltRender.Text

/-! ## Destinations -/

/-- The location that a path describes, whatever is on the disk. -/
def Path.destination (start : Location) (p : Path) : Location :=
  p.components.foldl onward start

/-- The location one piece further on. -/
def onwardPiece (l : Location) (piece : List Char) : Location :=
  match Path.component? piece with
  | none => l
  | some c => onward l c

theorem foldl_onwardPiece (pieces : List (List Char)) (l : Location) :
    pieces.foldl onwardPiece l = (pieces.filterMap Path.component?).foldl onward l := by
  induction pieces generalizing l with
  | nil => rfl
  | cons piece rest ih =>
    rw [List.foldl_cons, ih, List.filterMap_cons]
    cases h : Path.component? piece with
    | none => simp only [onwardPiece, h]
    | some c => simp only [onwardPiece, h, List.foldl_cons]

theorem component?_nil : Path.component? [] = none := rfl

theorem filterMap_component?_filter (pieces : List (List Char)) :
    (pieces.filter fun piece => !piece.isEmpty).filterMap Path.component? =
      pieces.filterMap Path.component? := by
  induction pieces with
  | nil => rfl
  | cons piece rest ih =>
    cases piece with
    | nil =>
      rw [List.filterMap_cons_none component?_nil, List.filter_cons_of_neg (by decide)]
      exact ih
    | cons c cs =>
      rw [List.filter_cons_of_pos (by rfl), List.filterMap_cons, List.filterMap_cons, ih]

theorem Path.pieces_eq_cons (p : Path) : ∃ first rest, p.pieces = first :: rest := by
  cases h : p.pieces with
  | nil => exact absurd h (cut_ne_nil _ _)
  | cons first rest => exact ⟨first, rest, rfl⟩

/-- The first piece of an absolute path is empty. -/
theorem Path.first_of_isAbsolute {p : Path} {first : List Char} {rest : List (List Char)}
    (hp : p.pieces = first :: rest) (h : p.isAbsolute = true) : first = [] := by
  have hhead : p.text.toList.head? = some '/' := by simpa [Path.isAbsolute] using h
  unfold Path.pieces at hp
  cases htext : p.text.toList with
  | nil => rw [htext] at hhead; exact absurd hhead (by simp)
  | cons c cs =>
    rw [htext] at hhead hp
    obtain rfl := Option.some.inj hhead
    rw [cut, if_pos rfl] at hp
    exact (List.cons.inj hp).1.symm

theorem Path.destination_eq (start : Location) (p : Path) :
    p.destination start =
      (p.pieces.filterMap component?).foldl onward (if p.isAbsolute then [] else start) := by
  obtain ⟨first, rest, hp⟩ := p.pieces_eq_cons
  simp only [destination, components, hp]
  cases habs : p.isAbsolute with
  | true =>
    rw [first_of_isAbsolute hp habs]
    rfl
  | false =>
    by_cases hfirst : first = ['.']
    · subst hfirst
      rfl
    · rw [List.filterMap_cons]
      simp only [hfirst, Bool.false_eq_true, if_false]
      cases component? first <;> rfl

/-! ## Walks -/

/-- The first part of what succeeds succeeds. -/
theorem bind_ok {α β : Type} {x : Except Fault α} {f : α → Except Fault β} {b : β}
    (h : (x >>= f) = .ok b) : ∃ a, x = .ok a ∧ f a = .ok b := by
  cases x with
  | error e => exact absurd h (by simp [bind, Except.bind])
  | ok a => exact ⟨a, rfl, h⟩

theorem step_ok {d : Disk} {l r : Location} {piece : List Char} (hne : piece ≠ [])
    (h : d.step l piece = .ok r) :
    d.isDirectoryAt l = true ∧ r = onwardPiece l piece ∧
    ((d.item? r).isSome = true ∨ isDots piece = true) := by
  unfold step at h
  cases hdir : d.isDirectoryAt l with
  | false =>
    rw [hdir] at h
    exact absurd h (by simp)
  | true =>
    simp only [hdir, Bool.not_true, Bool.false_eq_true, if_false] at h
    refine ⟨rfl, ?_⟩
    -- The two dots are decided by their spelling, before anything is looked up.
    by_cases hhere : piece = ['.']
    · rw [if_pos hhere] at h
      subst hhere
      exact ⟨(Except.ok.inj h).symm, .inr rfl⟩
    · rw [if_neg hhere] at h
      by_cases hup : piece = ['.', '.']
      · rw [if_pos hup] at h
        subst hup
        exact ⟨(Except.ok.inj h).symm, .inr rfl⟩
      · rw [if_neg hup] at h
        have honward : onwardPiece l piece = l ++ [String.ofList piece] := by
          simp [onwardPiece, Path.component?, Path.isRedundant, hne, hhere, hup, onward]
        split at h
        · exact absurd h (by simp)
        · split at h
          · rename_i hsome
            rw [honward, ← Except.ok.inj h]
            exact ⟨rfl, .inl hsome⟩
          · exact absurd h (by simp)

theorem walk_cons {d : Disk} {l r : Location} {piece : List Char} {pieces : List (List Char)}
    (h : d.walk l (piece :: pieces) = .ok r) :
    ∃ m, d.step l piece = .ok m ∧ d.walk m pieces = .ok r := by
  unfold walk at h
  rw [List.foldlM_cons] at h
  exact bind_ok h

theorem walk_concat {d : Disk} {l r : Location} {piece : List Char} {pieces : List (List Char)}
    (h : d.walk l (pieces ++ [piece]) = .ok r) :
    ∃ m, d.walk l pieces = .ok m ∧ d.step m piece = .ok r := by
  unfold walk at h
  rw [List.foldlM_append] at h
  obtain ⟨m, hwalk, hlast⟩ := bind_ok h
  obtain ⟨r', hstep, hend⟩ := walk_cons hlast
  obtain rfl := Except.ok.inj hend
  exact ⟨m, hwalk, hstep⟩

theorem walk_ok {d : Disk} {pieces : List (List Char)} {l r : Location}
    (hne : ∀ piece ∈ pieces, piece ≠ []) (h : d.walk l pieces = .ok r) :
    r = pieces.foldl onwardPiece l := by
  induction pieces generalizing l with
  | nil => exact (Except.ok.inj h).symm
  | cons piece rest ih =>
    obtain ⟨m, hstep, hwalk⟩ := walk_cons h
    rw [List.foldl_cons, ← (step_ok (hne piece List.mem_cons_self) hstep).2.1]
    exact ih (fun piece hpiece => hne piece (List.mem_cons_of_mem _ hpiece)) hwalk

/-! ## Where paths lead -/

/-- A text that can be a path: it is not empty, not too long, and has no character that no path
has. -/
structure Path.Fit (p : Path) : Prop where
  nonempty : p.text.toList ≠ []
  noNul : ∀ c ∈ p.text.toList, c.toNat ≠ 0
  short : byteLength p.text.toList < pathLimit

/-- What makes a path unfit for a route makes all longer ones unfit as well. -/
theorem Path.Fit.of_initial {p q : Path} (h : p.Fit) (hinitial : q.text.toList <+: p.text.toList)
    (hne : q.text.toList ≠ []) : q.Fit := by
  obtain ⟨rest, hrest⟩ := hinitial
  have hlength : byteLength q.text.toList ≤ byteLength p.text.toList := by
    rw [← hrest, byteLength_append]
    exact Nat.le_add_right _ _
  exact ⟨hne, fun c hc => h.noNul c (hrest ▸ List.mem_append_left rest hc),
    Nat.lt_of_le_of_lt hlength h.short⟩

theorem Path.Fit.route {p : Path} (h : p.Fit) (d : Disk) :
    d.route p =
      .ok ⟨if p.isAbsolute then [] else d.start, p.pieces.filter (fun piece => !piece.isEmpty),
      p.text.toList.getLast? = some '/'⟩ := by
  have hnul : ¬ p.text.toList.any (fun c => c.toNat = 0) = true := by
    simpa using h.noNul
  have hempty : ¬ p.text.isEmpty = true := by
    intro hempty
    exact h.nonempty (by simpa using hempty)
  rw [Disk.route, if_neg hnul, if_neg hempty, if_neg (Nat.not_le.mpr h.short)]

theorem Path.fit_of_route {d : Disk} {p : Path} {r : Route} (h : d.route p = .ok r) : p.Fit := by
  unfold Disk.route at h
  split at h
  · exact absurd h (by simp)
  · rename_i hnul
    split at h
    · exact absurd h (by simp)
    · rename_i hempty
      split at h
      · exact absurd h (by simp)
      · rename_i hlength
        exact ⟨fun hnil => hempty (by simpa using hnil), by simpa using hnul, Nat.not_le.mp hlength⟩

/-- What a route says: where it starts, and which pieces follow. -/
theorem route_ok {d : Disk} {p : Path} {r : Route} (h : d.route p = .ok r) :
    r.origin = (if p.isAbsolute then [] else d.start) ∧
    r.pieces = p.pieces.filter (fun piece => !piece.isEmpty) ∧
      r.endsInSlash = (p.text.toList.getLast? = some '/' : Bool) := by
  obtain rfl := Except.ok.inj (((Path.fit_of_route h).route d).symm.trans h)
  exact ⟨rfl, rfl, rfl⟩

theorem ne_nil_of_mem_route {d : Disk} {p : Path} {r : Route} (h : d.route p = .ok r) :
    ∀ piece ∈ r.pieces, piece ≠ [] := by
  intro piece hpiece
  rw [(route_ok h).2.1] at hpiece
  have hkeep := (List.mem_filter.mp hpiece).2
  rintro rfl
  exact absurd hkeep (by decide)

theorem foldl_route {d : Disk} {p : Path} {r : Route} (h : d.route p = .ok r) :
    r.pieces.foldl onwardPiece r.origin = p.destination d.start := by
  obtain ⟨horigin, hpieces, -⟩ := route_ok h
  rw [foldl_onwardPiece, hpieces, filterMap_component?_filter, horigin, Path.destination_eq]

theorem find_cases {d : Disk} {p : Path} {l : Location} (h : d.find p = .ok l) :
    ∃ r, d.route p = .ok r ∧ d.walk r.origin r.pieces = .ok l ∧
      (r.endsInSlash = true → d.isDirectoryAt l = true) := by
  obtain ⟨r, hr, h⟩ := bind_ok h
  obtain ⟨m, hwalk, h⟩ := bind_ok h
  split at h
  · exact absurd h (by simp)
  · rename_i hslash
    obtain rfl := Except.ok.inj h
    refine ⟨r, hr, hwalk, fun hends => ?_⟩
    cases hdir : d.isDirectoryAt m with
    | true => rfl
    | false => exact absurd (by rw [hends, hdir]; rfl) hslash

/-- **What is found at a path is at its destination.** -/
theorem find_ok {d : Disk} {p : Path} {l : Location} (h : d.find p = .ok l) :
    l = p.destination d.start := by
  obtain ⟨r, hr, hwalk, -⟩ := find_cases h
  rw [walk_ok (ne_nil_of_mem_route hr) hwalk, foldl_route hr]

/-- A name that a file or directory can have in a path. -/
structure PlainName (name : String) : Prop where
  noSlash : '/' ∉ name.toList
  notEmpty : name.toList ≠ []
  notDots : isDots name.toList = false

theorem PlainName.component? {name : String} (h : PlainName name) :
    Path.component? name.toList = some (.name name) := by
  have hdots := h.notDots
  simp only [isDots, Bool.or_eq_false_iff, beq_eq_false_iff_ne] at hdots
  simp [Path.component?, Path.isRedundant, h.notEmpty, hdots.1, hdots.2]

theorem PlainName.onwardPiece {name : String} (h : PlainName name) (l : Location) :
    onwardPiece l name.toList = l ++ [name] := by
  simp only [Disk.onwardPiece, h.component?, onward]

theorem target_cases {d : Disk} {p : Path} {t : Target} {name : List Char} (h : d.target p = .ok t)
    (hname : t.name = some name) :
    ∃ r, d.route p = .ok r ∧ r.pieces = r.pieces.dropLast ++ [name] ∧ isDots name = false ∧
      d.walk r.origin r.pieces.dropLast = .ok t.parent ∧ d.isDirectoryAt t.parent = true ∧
      t.endsInSlash = r.endsInSlash := by
  obtain ⟨r, hr, h⟩ := bind_ok h
  cases hlast : r.pieces.getLast? with
  | none =>
    simp only [hlast] at h
    obtain rfl := Except.ok.inj h
    exact absurd hname (by simp)
  | some last =>
    simp only [hlast] at h
    obtain ⟨m, hwalk, h⟩ := bind_ok h
    split at h
    · exact absurd h (by simp)
    · rename_i hdir
      obtain rfl := Except.ok.inj h
      cases hdots : isDots last with
      | true => exact absurd hname (by simp [hdots])
      | false =>
        simp only [hdots, Bool.false_eq_true, if_false, Option.some.injEq] at hname
        subst hname
        obtain ⟨front, hfront⟩ := List.getLast?_eq_some_iff.mp hlast
        refine ⟨r, hr, ?_, hdots, hwalk, by simpa using hdir, rfl⟩
        rw [hfront, List.dropLast_concat]

theorem plainName_of_route {d : Disk} {p : Path} {r : Route} (h : d.route p = .ok r)
    {name : List Char} (hmem : name ∈ r.pieces) (hdots : isDots name = false) :
    PlainName (String.ofList name) := by
  have hne := ne_nil_of_mem_route h name hmem
  rw [(route_ok h).2.1] at hmem
  have hslash := not_mem_of_mem_cut (List.mem_filter.mp hmem).1
  exact ⟨by rwa [String.toList_ofList], by rwa [String.toList_ofList],
    by rwa [String.toList_ofList]⟩

/-- **What is done at a path that has a name** leaves what it does with the name to be looked at. -/
theorem named_ok {α : Type} {d : Disk} {p : Path} {fault : Fault}
    {f : Target → List Char → Except Fault α} {a : α}
    (h : (d.target p >>= fun t => match t.name with
      | none => .error fault
      | some name => f t name) = .ok a) :
    ∃ t name, d.target p = .ok t ∧ t.name = some name ∧ f t name = .ok a := by
  obtain ⟨t, ht, h⟩ := bind_ok h
  cases hname : t.name with
  | none =>
    rw [hname] at h
    exact absurd h (by simp)
  | some name =>
    rw [hname] at h
    exact ⟨t, name, ht, hname, h⟩

/-- **What is put at a path gets a plain name in a directory, and so stands at the path's
destination.** -/
theorem target_ok {d : Disk} {p : Path} {t : Target} {name : List Char} (h : d.target p = .ok t)
    (hname : t.name = some name) :
    t.parent ++ [String.ofList name] = p.destination d.start ∧ d.isDirectoryAt t.parent = true ∧
      PlainName (String.ofList name) := by
  obtain ⟨r, hr, hpieces, hdots, hwalk, hdir, -⟩ := target_cases h hname
  have hplain : PlainName (String.ofList name) :=
    plainName_of_route hr (by rw [hpieces]; simp) hdots
  refine ⟨?_, hdir, hplain⟩
  have hparent :=
    walk_ok (fun piece hp => ne_nil_of_mem_route hr piece (List.dropLast_subset _ hp)) hwalk
  rw [← foldl_route hr, hpieces, List.foldl_append, ← hparent, List.foldl_cons, List.foldl_nil]
  have honward := hplain.onwardPiece t.parent
  rw [String.toList_ofList] at honward
  exact honward.symm

end AltRender.Disk

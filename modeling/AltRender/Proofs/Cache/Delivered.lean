import AltRender.Proofs.Cache.Traffic

/-!
# `Proofs/Cache/Delivered` — what stands in the place of an entry

Writes of entries are under way at once, and in between something is cleared. At any time the place
of an entry has nothing in it, or what was there at first, or all the bytes of a write that has
succeeded (`Holds`). That is kept by every step of every write, whether the step succeeds or not,
and by every removal (`Reached.step`).

It takes three things. The files of entries and the temporary files have different names, so that a
place of an entry is written by nothing but a rename. No two writes share a temporary file, and
nothing but its own write appends to one, so that what is renamed is all of the bytes. And what a
clear removes is gone or was not there: a temporary file that is lost makes its write fail.

One thing can come to the place of an entry that is not the entry of a write: a directory, if the
path of a cache leads through that place, because a write makes all directories on its way.
-/

set_option autoImplicit false

namespace AltRender.Cache

open AltRender.Disk AltRender.Text

/-! ## Where entries are -/

/-- The path is that of an entry. -/
def IsEntryPath (p : Path) : Prop :=
  extension.toList <:+ p.text.toList

instance (p : Path) : Decidable (IsEntryPath p) :=
  inferInstanceAs (Decidable (_ <:+ _))

/-- The location is one that an entry can have. -/
def IsEntryPlace (l : Location) : Prop :=
  ∃ parent name, l = parent ++ [name] ∧ extension.toList <:+ name.toList

/-- A name with the extension of entries can stand in a path. -/
theorem plainName_of_extension {name : String} (hslash : '/' ∉ name.toList)
    (h : extension.toList <:+ name.toList) : PlainName name := by
  have hlength := h.length_le
  refine ⟨hslash, ?_, ?_⟩
  · intro hnil
    rw [hnil] at hlength
    exact absurd hlength (by decide)
  · rw [isDots, Bool.or_eq_false_iff, beq_eq_false_iff_ne, beq_eq_false_iff_ne]
    refine ⟨fun hdots => ?_, fun hdots => ?_⟩
    all_goals
      rw [hdots] at hlength
      exact absurd hlength (by decide)

theorem eq_of_toList {p q : Path} (h : p.text.toList = q.text.toList) : p = q := by
  obtain ⟨text⟩ := p
  obtain rfl : text = q.text := String.toList_inj.mp h
  rfl

/-- A path with the extension of entries is a name with that extension in some directory. -/
theorem exists_join_of_isEntryPath {p : Path} (h : IsEntryPath p) :
    ∃ (directory : Path) (name : String), p = directory.join ⟨name⟩ ∧ PlainName name ∧
      extension.toList <:+ name.toList := by
  by_cases hslash : '/' ∈ p.text.toList.reverse
  · -- The name is what stands behind the last slash.
    obtain ⟨back, front, hsplit, hback⟩ := List.eq_append_cons_of_mem hslash
    have htext : p.text.toList = front.reverse ++ '/' :: back.reverse := by
      rw [← List.reverse_reverse p.text.toList, hsplit]
      simp
    have hname : extension.toList <:+ back.reverse := by
      have hends : '/' :: back.reverse <:+ p.text.toList := htext ▸ List.suffix_append _ _
      have hnot : '/' ∉ extension.toList := by decide
      rcases List.suffix_or_suffix_of_suffix h hends with hin | hover
      · exact (List.suffix_cons_iff.mp hin).resolve_left fun heq => hnot (heq ▸ List.mem_cons_self)
      · exact absurd (hover.subset List.mem_cons_self) hnot
    have hplain : PlainName (String.ofList back.reverse) := by
      refine plainName_of_extension ?_ (by rwa [String.toList_ofList])
      rw [String.toList_ofList, List.mem_reverse]
      exact hback
    refine ⟨⟨String.ofList (front.reverse ++ ['/'])⟩, String.ofList back.reverse, eq_of_toList ?_,
      hplain,
      by rwa [String.toList_ofList]⟩
    rcases Path.toList_join ⟨String.ofList (front.reverse ++ ['/'])⟩ hplain with
      ⟨-, hjoin⟩ | ⟨⟨-, hlast⟩, -⟩
    · rw [hjoin, htext]
      simp
    · exact absurd (by simp) hlast
  · rw [List.mem_reverse] at hslash
    have hplain := plainName_of_extension hslash h
    refine ⟨⟨""⟩, p.text, eq_of_toList ?_, hplain, h⟩
    rcases Path.toList_join ⟨""⟩ hplain with ⟨-, hjoin⟩ | ⟨⟨hempty, -⟩, -⟩
    · rw [hjoin]
      rfl
    · exact absurd rfl hempty

theorem isEntryPlace_of_isEntryPath {p : Path} (h : IsEntryPath p) (start : Location) :
    IsEntryPlace (p.destination start) := by
  obtain ⟨directory, name, rfl, hplain, hname⟩ := exists_join_of_isEntryPath h
  exact ⟨directory.destination start, name, Path.destination_join _ _ hplain, hname⟩

/-! ## Writes that keep out of each other's way -/

/-- **The writes are to entries, and each has a temporary file of its own,** whose name is none that
an entry has. -/
structure Apart (deliveries : List Delivery) : Prop where
  targets : ∀ j ∈ deliveries, IsEntryPath j.path
  plain : ∀ j ∈ deliveries, PlainName j.temporary
  extensions : ∀ j ∈ deliveries, ¬ extension.toList <:+ j.temporary.toList
  distinct : (deliveries.map Delivery.temporary).Nodup

instance (name : String) : Decidable (PlainName name) :=
  decidable_of_iff ('/' ∉ name.toList ∧ name.toList ≠ [] ∧ isDots name.toList = false)
    ⟨fun ⟨hslash, hempty, hdots⟩ => ⟨hslash, hempty, hdots⟩,
      fun h => ⟨h.noSlash, h.notEmpty, h.notDots⟩⟩

instance (deliveries : List Delivery) : Decidable (Apart deliveries) :=
  decidable_of_iff ((∀ j ∈ deliveries, IsEntryPath j.path) ∧
    (∀ j ∈ deliveries, PlainName j.temporary) ∧
      (∀ j ∈ deliveries, ¬ extension.toList <:+ j.temporary.toList) ∧
      (deliveries.map Delivery.temporary).Nodup)
    ⟨fun ⟨htargets, hplain, hextensions, hdistinct⟩ => ⟨htargets, hplain, hextensions, hdistinct⟩,
      fun h => ⟨h.targets, h.plain, h.extensions, h.distinct⟩⟩

namespace Apart

variable {deliveries : List Delivery} {i k : Nat} {j j' : Delivery}

theorem temporary_destination (h : Apart deliveries) (hj : j ∈ deliveries) (start : Location) :
    j.temporaryPath.destination start = j.directory.destination start ++ [j.temporary] :=
  Path.destination_join _ _ (h.plain j hj)

/-- No entry has the place of a temporary file. -/
theorem ne_of_isEntryPlace (h : Apart deliveries) (hj : j ∈ deliveries) {l : Location}
    (hl : IsEntryPlace l) (start : Location) : l ≠ j.temporaryPath.destination start := by
  obtain ⟨parent, name, rfl, hname⟩ := hl
  rw [h.temporary_destination hj]
  intro heq
  obtain rfl := List.singleton_inj.mp (List.append_inj' heq rfl).2
  exact h.extensions j hj hname

/-- No two writes have one temporary file. -/
theorem temporary_ne (h : Apart deliveries) (hj : deliveries[i]? = some j)
    (hj' : deliveries[k]? = some j') (hne : i ≠ k) (start : Location) :
    j.temporaryPath.destination start ≠ j'.temporaryPath.destination start := by
  rw [h.temporary_destination (List.mem_of_getElem? hj),
    h.temporary_destination (List.mem_of_getElem? hj')]
  intro heq
  have hname := List.singleton_inj.mp (List.append_inj' heq rfl).2
  have hlength : i < (deliveries.map Delivery.temporary).length := by
    rw [List.length_map]
    exact (List.getElem?_eq_some_iff.mp hj).1
  refine hne ((List.getElem?_inj hlength h.distinct).mp ?_)
  rw [List.getElem?_map, List.getElem?_map, hj, hj', Option.map_some, Option.map_some, hname]

end Apart

/-! ## What an entry's place can have -/

/-- **What stands in the place of an entry:** nothing, or what stood there at first, or all the
bytes of a write that has succeeded; or a directory, if the place is on the way of a write. -/
inductive Holds (d : Disk) (deliveries : List Delivery) (x : Traffic) (l : Location) :
    Option Item → Prop
  | nothing : Holds d deliveries x l none
  | before : Holds d deliveries x l (d.seen l)
  | delivered {i : Nat} {j : Delivery} {t : Instant}
      (hdone : x.deliveries[i]? = some (j, .done (.ok ())))
      (htarget : j.path.destination d.start = l) : Holds d deliveries x l (some (.file j.bytes t))
  | made {j : Delivery} (hj : j ∈ deliveries) (hway : l ∈ waypoints d.start j.directory) :
      Holds d deliveries x l (some folder)

/-- **What can be reached from a disk by writes and clears, in any order of their steps.** -/
structure Reached (d : Disk) (deliveries : List Delivery) (x : Traffic) : Prop where
  start : x.disk.start = d.start
  same : x.deliveries.map Prod.fst = deliveries
  fits : ∀ (i : Nat) (j : Delivery) (progress : Delivery.Progress),
    x.deliveries[i]? = some (j, progress) →
    Delivery.Fits x.disk j progress
  entries : ∀ l, IsEntryPlace l → Holds d deliveries x l (x.disk.seen l)

namespace Reached

variable {d : Disk} {deliveries : List Delivery} {x x' : Traffic} {i : Nat} {j : Delivery}
  {progress : Delivery.Progress} {now : Instant} {l : Location}

theorem ofDeliveries (d : Disk) (deliveries : List Delivery) :
    Reached d deliveries (Traffic.ofDeliveries d deliveries) := by
  refine ⟨rfl, ?_, fun i j progress hj => ?_, fun l _ => .before⟩
  · rw [Traffic.ofDeliveries, List.map_map]
    exact List.map_id deliveries
  · rw [Traffic.ofDeliveries, List.getElem?_map, Option.map_eq_some_iff] at hj
    obtain ⟨j', -, heq⟩ := hj
    obtain ⟨rfl, rfl⟩ := Prod.mk.inj heq
    trivial

theorem getElem? (h : Reached d deliveries x) (hj : x.deliveries[i]? = some (j, progress)) :
    deliveries[i]? = some j := by
  rw [← h.same, List.getElem?_map, hj, Option.map_some]

theorem mem (h : Reached d deliveries x) (hj : x.deliveries[i]? = some (j, progress)) :
    j ∈ deliveries :=
  List.mem_of_getElem? (h.getElem? hj)

end Reached

/-! ## One step -/

section Step

variable {d : Disk} {deliveries : List Delivery} {x x' : Traffic} {i : Nat} {j : Delivery}
  {progress progress' : Delivery.Progress} {act : Delivery.Act} {now : Instant} {l : Location}

theorem step_deliver (hj : x.deliveries[i]? = some (j, progress)) (now : Instant)
    (act : Delivery.Act) :
    x.step now (.deliver i act) =
      ⟨(j.advance now x.disk progress act).2,
        x.deliveries.set i (j, (j.advance now x.disk progress act).1)⟩ := by
  simp only [Traffic.step, hj]

theorem step_deliver_none (hj : x.deliveries[i]? = none) (now : Instant) (act : Delivery.Act) :
    x.step now (.deliver i act) = x := by
  simp only [Traffic.step, hj]

/-- Each write is the one that made the step, or has come as far as before. -/
theorem getElem?_set_cases {e e' : Delivery × Delivery.Progress} {k : Nat}
    (h : (x.deliveries.set i e)[k]? = some e') :
    (i = k ∧ e' = e) ∨ (i ≠ k ∧ x.deliveries[k]? = some e') := by
  rw [List.getElem?_set] at h
  split at h
  · rename_i hik
    split at h
    · exact .inl ⟨hik, (Option.some.inj h).symm⟩
    · exact absurd h (by simp)
  · rename_i hik
    exact .inr ⟨hik, h⟩

/-- **A write that is done stays done,** whoever makes the next step. -/
theorem done_step {result : Except Fault Unit} (hdone : x.deliveries[i]? = some (j, .done result))
    (now : Instant) (move : Move) : (x.step now move).deliveries[i]? = some (j, .done result) := by
  cases move with
  | deliver k act =>
    cases hk : x.deliveries[k]? with
    | none => rwa [step_deliver_none hk]
    | some e =>
      obtain ⟨j', progress⟩ := e
      rw [step_deliver hk, List.getElem?_set]
      by_cases hik : k = i
      · subst hik
        obtain ⟨rfl, rfl⟩ := Prod.mk.inj (Option.some.inj (hk.symm.trans hdone))
        rw [if_pos rfl, if_pos (List.getElem?_eq_some_iff.mp hk).1,
          (j'.advance_turn now x.disk (.done result) act).done]
      · rwa [if_neg hik]
  | clear p => exact hdone
  | sweep directory test name => exact hdone

/-- What an entry's place can have, it can have later. -/
theorem Holds.later {item : Option Item} (h : Holds d deliveries x l item)
    (hdone : ∀ (i : Nat) (j : Delivery), x.deliveries[i]? = some (j, .done (.ok ())) →
      x'.deliveries[i]? = some (j, .done (.ok ()))) :
    Holds d deliveries x' l item := by
  cases h with
  | nothing => exact .nothing
  | before => exact .before
  | delivered hdelivered htarget => exact .delivered (hdone _ _ hdelivered) htarget
  | made hj hway => exact .made hj hway

/-- A step of a write. -/
theorem Reached.turn (h : Reached d deliveries x) (hapart : Apart deliveries)
    (hj : x.deliveries[i]? = some (j, progress)) (act : Delivery.Act) (now : Instant) :
    Reached d deliveries (x.step now (.deliver i act)) := by
  have hdone := fun k j' hk => @done_step x k j' (.ok ()) hk now (.deliver i act)
  have hturn := j.advance_turn now x.disk progress act
  have hfits := h.fits i j progress hj
  have hkeeps := hturn.keeps hfits
  rw [step_deliver hj] at hdone ⊢
  generalize (j.advance now x.disk progress act).1 = progress' at hturn hdone
  generalize (j.advance now x.disk progress act).2 = d' at hturn hdone hkeeps
  refine ⟨hkeeps.start.trans h.start, ?_, fun k j' later hk => ?_, fun l hl => ?_⟩
  · obtain ⟨hlength, hget⟩ := List.getElem?_eq_some_iff.mp (h.getElem? hj)
    rw [List.map_set, h.same, ← hget]
    exact List.set_getElem_self hlength
  · rcases getElem?_set_cases hk with ⟨rfl, heq⟩ | ⟨hik, hk⟩
    · obtain ⟨rfl, rfl⟩ := Prod.mk.inj heq
      exact hturn.fits hfits
    · have hfits' := h.fits k j' later hk
      cases later with
      | filling taken left =>
        -- Another's step does not touch this one's temporary file, and puts entries only where
        -- entries are.
        refine Delivery.Filling.keeps hfits' hkeeps fun bytes t hthere => ?_
        have hne := hapart.temporary_ne (h.getElem? hk) (h.getElem? hj) (Ne.symm hik) x.disk.start
        cases hturn.effect hfits hne with
        | none heq => exact heq ▸ hthere
        | made _ hafter _ =>
          rw [hafter] at hthere
          exact absurd hthere (by simp [folder])
        | delivered _ htarget _ =>
          have hplace := isEntryPlace_of_isEntryPath (hapart.targets j (h.mem hj)) x.disk.start
          exact absurd htarget (hapart.ne_of_isEntryPlace (h.mem hk) hplace _)
      | _ => trivial
  · have hne := hapart.ne_of_isEntryPlace (h.mem hj) hl x.disk.start
    cases hturn.effect hfits hne with
    | none heq =>
      rw [heq]
      exact (h.entries l hl).later hdone
    | made _ hafter hway =>
      rw [hafter]
      exact .made (h.mem hj) (h.start ▸ hway)
    | delivered hdelivered htarget hafter =>
      rw [hafter]
      refine .delivered (i := i) ?_ (h.start ▸ htarget)
      rw [List.getElem?_set, if_pos rfl, if_pos (List.getElem?_eq_some_iff.mp hj).1, hdelivered]

/-- A file that is removed is no entry's any more, and no write's temporary file. -/
theorem Reached.removed (h : Reached d deliveries x) (p : Path) (now : Instant) :
    Reached d deliveries { x with disk := (removeFile x.disk p now).2 } := by
  have hkeeps := removeFile_keeps x.disk p now
  refine ⟨hkeeps.start.trans h.start, h.same, fun i j progress hj => ?_, fun l hl => ?_⟩
  · have hfits := h.fits i j progress hj
    cases progress with
    | filling taken left =>
      refine Delivery.Filling.keeps hfits hkeeps fun bytes t hthere => ?_
      rcases removeFile_seen x.disk p now (j.temporaryPath.destination x.disk.start) with
        hsame | hgone
      · exact hsame ▸ hthere
      · rw [hgone] at hthere
        exact absurd hthere (by simp)
    | _ => trivial
  · show Holds d deliveries _ l ((removeFile x.disk p now).2.seen l)
    rcases removeFile_seen x.disk p now l with hsame | hgone
    · rw [hsame]
      exact (h.entries l hl).later fun _ _ hdone => hdone
    · rw [hgone]
      exact .nothing

/-- **Every step leads to what can be reached.** -/
theorem Reached.step (h : Reached d deliveries x) (hapart : Apart deliveries) (now : Instant)
    (move : Move) : Reached d deliveries (x.step now move) := by
  cases move with
  | deliver i act =>
    cases hj : x.deliveries[i]? with
    | none => rwa [step_deliver_none hj]
    | some e => exact h.turn hapart hj act now
  | clear p => exact h.removed p now
  | sweep directory test name =>
    rw [Traffic.step, Traffic.swept]
    split
    · exact h.removed _ now
    · exact h

end Step

end AltRender.Cache

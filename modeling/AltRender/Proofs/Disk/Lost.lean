import AltRender.Proofs.Disk.View
import Mathlib.Data.List.Nodup

/-!
# `Proofs/Disk/Lost` — files that are gone

A disk has *lost* the files that another one, later in time, has nothing in place of (`mem_lost`).
When one more of them is taken away, one more is lost (`length_lost_of_altered`), so a count of
removals is a count of losses.

The clears of a cache report a number, and the question is whether that is the number of files that
are gone. A clear removes one file after the other and counts as it goes, so it is enough to follow
one removal: it adds one location to those that are lost, which was not among them before.
Directories do not matter, and neither does a file that comes in the meantime elsewhere, since only
what stood on the first disk can be lost.
-/

set_option autoImplicit false

namespace AltRender

open AltRender.Text

/-- The value that an entry has is the one under its key. -/
theorem Keyed.get?_of_mem {κ α : Type} [DecidableEq κ] {m : Keyed κ α} {k : κ} {v : α}
    (h : (k, v) ∈ m.entries) : m.get? k = some v := by
  obtain ⟨v', hv'⟩ := (mem_keys_iff_get? m k).mp (List.mem_map.mpr ⟨_, h, rfl⟩)
  have hsame : (k, v') = (k, v) := List.inj_on_of_nodup_map m.distinct (mem_of_get? hv') h rfl
  rw [hv', (Prod.mk.inj hsame).2]

namespace Disk

/-- The locations of all files on a disk. -/
def fileLocations (d : Disk) : List Location :=
  (d.items.entries.filter fun e => e.2.isFile).map Prod.fst

/-- The locations of a disk's files at which nothing is on another disk. -/
def lost (d d' : Disk) : List Location :=
  d.fileLocations.filter fun l => (d'.item? l).isNone

variable {d d' d'' : Disk} {l : Location}

theorem mem_fileLocations :
    l ∈ d.fileLocations ↔ ∃ bytes t, d.items.get? l = some (.file bytes t) := by
  simp only [fileLocations, List.mem_map, List.mem_filter]
  constructor
  · rintro ⟨⟨k, item⟩, ⟨hmem, hfile⟩, rfl⟩
    cases item with
    | file bytes t => exact ⟨bytes, t, Keyed.get?_of_mem hmem⟩
    | directory t => exact absurd hfile (by simp [Item.isFile])
  · rintro ⟨bytes, t, hget⟩
    exact ⟨(l, .file bytes t), ⟨Keyed.mem_of_get? hget, rfl⟩, rfl⟩

/-- **What is lost was a file and is nothing now.** -/
theorem mem_lost :
    l ∈ d.lost d' ↔ (∃ bytes t, d.seen l = some (.file bytes t)) ∧ d'.seen l = none := by
  have hnone : (d'.item? l).isNone = true ↔ d'.seen l = none := by
    rw [Option.isNone_iff_eq_none, seen, Option.map_eq_none_iff]
  rw [lost, List.mem_filter, mem_fileLocations, hnone]
  by_cases hl : l = []
  · subst hl
    simp
  · simp only [← item?_file_iff, item?, List.isEmpty_iff, hl, if_false]

theorem nodup_lost (d d' : Disk) : (d.lost d').Nodup :=
  (d.items.distinct.sublist (List.filter_sublist.map Prod.fst)).filter _

theorem lost_self (d : Disk) : d.lost d = [] := by
  refine List.eq_nil_iff_forall_not_mem.mpr fun l hl => ?_
  obtain ⟨⟨bytes, t, hfile⟩, hnone⟩ := mem_lost.mp hl
  rw [hnone] at hfile
  exact absurd hfile (by simp)

/-- One file more that is gone is one more lost. -/
theorem length_lost_of_altered (hfile : ∃ bytes t, d.seen l = some (.file bytes t))
    (hthere : d'.seen l ≠ none) (h : Altered d' l none d'') :
    (d.lost d'').length = (d.lost d').length + 1 := by
  have hperm : (d.lost d'').Perm (l :: d.lost d') := by
    refine (List.perm_ext_iff_of_nodup (nodup_lost d d'') ?_).mpr fun k => ?_
    · exact List.nodup_cons.mpr ⟨fun hl => hthere (mem_lost.mp hl).2, nodup_lost d d'⟩
    · rw [List.mem_cons, mem_lost, mem_lost]
      by_cases hk : k = l
      · subst hk
        simp [hfile, h.seen_self]
      · simp [hk, h.seen_of_ne hk]
  exact hperm.length_eq

end Disk

end AltRender

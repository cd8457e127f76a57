import AltRender.Glob.Search
import AltRender.Proofs.Disk.Joining
import Mathlib.Data.List.Nodup

/-!
# `Proofs/Disk/Contents` — what is in a directory

On a proper disk everything is in a directory and has a name that a path can have, so there is a
walk to it (`IsProper.walk_name`). A directory has each of its names once (`nodup_namesAt`), and
what is below it is listed once as well (`nodup_below`).

A search lists directories and looks at each name, while the statement about it speaks of files and
where they are. What goes between the two is a disk on which no file is out of reach (`IsProper`):
each location has a directory above it, and its last name is one that a path can have. Without the
first a file would be there and no walk would come to it; without the second a path would be cut at
a slash in the name, or be refused for its length.

Whether a disk is proper can be seen from the list of its locations (`IsProper.of_keys`).
-/

set_option autoImplicit false

namespace AltRender.Disk

open AltRender.Text

/-! ## Proper disks -/

/-- A name that a file or directory can have, wherever it is. -/
structure ProperName (name : String) : Prop extends PlainName name where
  noNul : ∀ c ∈ name.toList, c.toNat ≠ 0
  short : byteLength name.toList ≤ nameLimit

theorem properName_iff {name : String} :
    ProperName name ↔ ('/' ∉ name.toList ∧ name.toList ≠ [] ∧ isDots name.toList = false) ∧
      (∀ c ∈ name.toList, c.toNat ≠ 0) ∧ byteLength name.toList ≤ nameLimit :=
  ⟨fun h => ⟨⟨h.noSlash, h.notEmpty, h.notDots⟩, h.noNul, h.short⟩,
    fun ⟨⟨hslash, hempty, hdots⟩, hnul, hshort⟩ => ⟨⟨hslash, hempty, hdots⟩, hnul, hshort⟩⟩

-- The characters of the name are gone through, not all characters that there are.
instance : DecidablePred ProperName := fun name =>
  haveI : Decidable (∀ c ∈ name.toList, c.toNat ≠ 0) := List.decidableBAll _ _
  decidable_of_iff _ properName_iff.symm

/-- A disk on which everything is in a directory and has a proper name. -/
structure IsProper (d : Disk) : Prop where
  tree : d.IsTree
  named : ∀ l, (d.seen l).isSome = true → ∀ name ∈ l, ProperName name

section Proper

variable {d : Disk} {l : Location} {name : String} {names : List String}

/-- What has something below it is a directory. -/
theorem IsTree.isDirectoryAt_of_below (h : d.IsTree)
    (hseen : (d.seen (l ++ name :: names)).isSome = true) : d.isDirectoryAt l = true := by
  refine h.isDirectoryAt_of_prefix ?_ (h _ hseen)
  rw [List.dropLast_append_of_ne_nil (List.cons_ne_nil _ _)]
  exact List.prefix_append _ _

/-- What is on the way to something is there. -/
theorem IsTree.isSome_of_prefix (h : d.IsTree) {m : Location} (hm : m <+: l)
    (hseen : (d.seen l).isSome = true) : (d.seen m).isSome = true := by
  obtain ⟨rest, rfl⟩ := hm
  cases rest with
  | nil => rwa [List.append_nil] at hseen
  | cons name names =>
    rw [isDirectoryAt_iff.mp (h.isDirectoryAt_of_below hseen)]
    rfl

theorem not_isDirectoryAt_of_file {bytes : List UInt8} {t : Instant}
    (h : d.seen l = some (.file bytes t)) : d.isDirectoryAt l = false := by
  rw [Bool.eq_false_iff, ne_eq, isDirectoryAt_iff, h]
  simp [folder]

theorem mem_keys_of_seen (hl : l ≠ []) (h : (d.seen l).isSome = true) : l ∈ d.items.keys := by
  rw [seen_of_ne_nil d hl, Option.isSome_map] at h
  exact (Keyed.mem_keys_iff_get? _ _).mpr (Option.isSome_iff_exists.mp h)

/-- Whether a disk is proper can be seen from the locations of what is on it. -/
theorem IsProper.of_keys
    (h : ∀ l ∈ d.items.keys, d.isDirectoryAt l.dropLast = true ∧ ∀ name ∈ l, ProperName name) :
    d.IsProper := by
  have hall : ∀ l, (d.seen l).isSome = true →
    d.isDirectoryAt l.dropLast = true ∧ ∀ name ∈ l, ProperName name := by
    intro l hseen
    by_cases hl : l = []
    · subst hl
      exact ⟨rfl, List.forall_mem_nil _⟩
    · exact h l (mem_keys_of_seen hl hseen)
  exact ⟨fun l hseen => (hall l hseen).1, fun l hseen => (hall l hseen).2⟩

/-- **A name in a directory is walked to.** -/
theorem IsProper.walk_name (h : d.IsProper) (hseen : (d.seen (l ++ [name])).isSome = true) :
    d.walk l [name.toList] = .ok (l ++ [name]) := by
  have hname : ProperName name := h.named _ hseen name (by simp)
  have hdir := h.tree.isDirectoryAt_of_below hseen
  have hdots := hname.notDots
  simp only [isDots, Bool.or_eq_false_iff, beq_eq_false_iff_ne] at hdots
  rw [walk, List.foldlM_cons, step, hdir, if_neg (by simp), if_neg hdots.1, if_neg hdots.2,
    if_neg (Nat.not_lt.mpr hname.short), String.ofList_toList, isSome_item?, if_pos hseen]
  rfl

end Proper

/-! ## Names -/

theorem namesAt_eq (d : Disk) (l : Location) :
    d.namesAt l = d.items.keys.filterMap fun m => if m.dropLast = l then m.getLast? else none := by
  rw [namesAt, Keyed.keys, List.filterMap_map]
  rfl

/-- A directory has each of its names once. -/
theorem nodup_namesAt (d : Disk) (l : Location) : (d.namesAt l).Nodup := by
  rw [namesAt_eq]
  refine List.Nodup.filterMap (fun m m' name hm hm' => ?_) d.items.distinct
  have hplace : ∀ k : Location, name ∈ (if k.dropLast = l then k.getLast? else none) →
    k = l ++ [name] := by
    intro k hk
    split at hk
    · rename_i hdrop
      obtain ⟨front, rfl⟩ := List.getLast?_eq_some_iff.mp hk
      rw [← hdrop, List.dropLast_concat]
    · exact absurd hk (by simp)
  rw [hplace m hm, hplace m' hm']

theorem mem_namesAt {d : Disk} {l : Location} {name : String} :
    name ∈ d.namesAt l ↔ (d.seen (l ++ [name])).isSome = true := by
  rw [namesAt_eq, List.mem_filterMap, seen_of_ne_nil d (by simp), Option.isSome_map]
  constructor
  · rintro ⟨m, hm, hname⟩
    split at hname
    · rename_i hdrop
      obtain ⟨front, rfl⟩ := List.getLast?_eq_some_iff.mp hname
      rw [List.dropLast_concat] at hdrop
      obtain ⟨item, hitem⟩ := (Keyed.mem_keys_iff_get? _ _).mp hm
      rw [← hdrop, hitem]
      rfl
    · exact absurd hname (by simp)
  · intro hsome
    obtain ⟨item, hitem⟩ := Option.isSome_iff_exists.mp hsome
    exact ⟨l ++ [name], (Keyed.mem_keys_iff_get? _ _).mpr ⟨item, hitem⟩, by simp⟩

end AltRender.Disk

namespace AltRender.Glob

open AltRender.Disk

/-! ## Everything below -/

/-- What is below a location is listed once. -/
theorem nodup_below (d : Disk) (l : Location) : (below d l).Nodup :=
  (List.mergeSort_perm _ _).nodup_iff.mpr (d.items.distinct.filter _)

theorem mem_below {d : Disk} {l m : Location} :
    m ∈ below d l ↔ (∃ name names, m = l ++ name :: names) ∧ (d.seen m).isSome = true := by
  rw [below, List.mem_mergeSort, List.mem_filter, Bool.and_eq_true, List.isPrefixOf_iff_prefix,
    decide_eq_true_iff]
  have hkey : m ≠ [] → (m ∈ d.items.entries.map Prod.fst ↔ (d.seen m).isSome = true) := by
    intro hm
    rw [seen_of_ne_nil d hm, Option.isSome_map, Option.isSome_iff_exists]
    exact Keyed.mem_keys_iff_get? _ _
  constructor
  · rintro ⟨hmem, ⟨rest, rfl⟩, hlength⟩
    cases rest with
    | nil => exact absurd hlength (by simp)
    | cons name names => exact ⟨⟨name, names, rfl⟩, (hkey (by simp)).mp hmem⟩
  · rintro ⟨⟨name, names, rfl⟩, hseen⟩
    exact ⟨(hkey (by simp)).mpr hseen, List.prefix_append _ _, by simp⟩

end AltRender.Glob

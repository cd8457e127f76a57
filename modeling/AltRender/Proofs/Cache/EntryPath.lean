import AltRender.Proofs.Cache.Confined
import AltRender.Proofs.Disk.Joining

/-!
# `Proofs/Cache/EntryPath` — the path of an entry, with the vault and without

An entry has a path relative to the vault, and one with the vault before it, at which it is written
and looked for. The second is the first behind the path of the vault, letter by letter
(`join_relativeEntryPath`), however the two directories are spelled: paths can be joined in any
order. The name of the entry replaces neither of them, since it does not begin with a slash, though
its signatures may have slashes in them.

Signatures with slashes are why this is said of texts and not of places. An entry with such a
signature has a path that leads into a directory further down, and it is still the same for both.
-/

set_option autoImplicit false

namespace AltRender.Cache

open AltRender.Disk AltRender.Text

/-- The name of an entry is a relative path, whatever its signatures are. -/
theorem isAbsolute_entryName (s : Source) (signatures : List String) (theme : Option Theme) :
    (⟨entryName s signatures theme⟩ : Path).isAbsolute = false := by
  obtain ⟨c, rest, hname, hc⟩ := exists_head_entryName s signatures theme
  rw [Path.isAbsolute, hname, List.head?_cons, beq_eq_false_iff_ne, Ne, Option.some.injEq]
  rintro rfl
  exact absurd hc (by decide)

variable (c : Cache) (s : Source) (signatures : List String) (theme : Option Theme)

theorem toList_relativeEntryPath : (c.relativeEntryPath s signatures theme).text.toList =
    c.directory.text.toList ++ c.directory.gap ++ (entryName s signatures theme).toList := by
  rw [relativeEntryPath, Path.toList_join_gap _ (isAbsolute_entryName s signatures theme),
    List.append_assoc]

/-- An absolute directory does not follow that of the vault but stands in its place. -/
theorem toList_absoluteDirectory_gap : c.absoluteDirectory.text.toList ++ c.absoluteDirectory.gap =
    (if c.directory.isAbsolute then [] else c.vaultRoot.text.toList ++ c.vaultRoot.gap) ++
      (c.directory.text.toList ++ c.directory.gap) := by
  rw [absoluteDirectory]
  cases hdirectory : c.directory.isAbsolute with
  | true => rw [Path.join_of_isAbsolute _ hdirectory, if_pos rfl, List.nil_append]
  | false =>
    rw [Path.toList_join_gap _ hdirectory, Path.gap_join _ hdirectory, if_neg Bool.false_ne_true]
    simp only [List.append_assoc]

/-- **The two paths of an entry agree.** That in the vault, joined to the path of the vault, is the
one with the vault before it. The one is the directory of the cache and the name, the other the same
behind the path of the vault, unless the directory is absolute; and there is a slash behind a part
that is not empty and does not end in one. -/
theorem join_relativeEntryPath :
    c.vaultRoot.join (c.relativeEntryPath s signatures theme) = c.entryPath s signatures theme ∧
      (c.relativeEntryPath s signatures theme).text.toList =
        c.directory.text.toList ++ c.directory.gap ++ (entryName s signatures theme).toList ∧
      (c.entryPath s signatures theme).text.toList =
        (if c.directory.isAbsolute then [] else c.vaultRoot.text.toList ++ c.vaultRoot.gap) ++
          (c.directory.text.toList ++ c.directory.gap) ++
            (entryName s signatures theme).toList := by
  refine ⟨(Path.join_join _ _ _).symm, toList_relativeEntryPath c s signatures theme, ?_⟩
  rw [entryPath, Path.toList_join_gap _ (isAbsolute_entryName s signatures theme),
    ← List.append_assoc, toList_absoluteDirectory_gap]

/-- A vault that ends in a slash, an empty directory and a signature that begins with a slash. -/
example :
    (ofDirectory ⟨"v/"⟩ ⟨""⟩).entryPath ⟨"a.png", "a.png", "", 0⟩ ["/x"] none =
      ⟨"v/_7f071235805f_/x.png"⟩ := by
  decide +kernel

end AltRender.Cache

import AltRender.Proofs.Disk.Rewriting
import AltRender.Proofs.Toml.Lines
import AltRender.Settings

/-!
# `Proofs/Settings` — settings read back

The settings that are written to a file are those that are read from it (`ofText?_toText`,
`load_save`). They can be written again, to the same effect (`save_again`).

It takes both halves. On the side of the text each setting is one line, and lines are read one by
one (`Toml/Lines`), so that the settings that are put together again are the ones that were taken
apart (`ofEntries?_all`). On the side of the disk a file that was written is read at the same path,
and the directories that were made for it are found the next time (`makeParent_of_target`). Whatever
else is in the file before it is written is lost, and nothing of it is read.
-/

set_option autoImplicit false

namespace AltRender.Settings

open AltRender.Disk AltRender.Toml

/-! ## As text -/

theorem toText_eq (s : Settings) :
    s.toText = String.ofList (written vaultRootKey.toList (writeText s.vaultRoot.text.toList) ++
      written cacheDirectoryKey.toList (writeText s.cacheDirectory.text.toList) ++
      written debugKey.toList (if s.debug then "true" else "false").toList) := rfl

theorem ofEntries?_all (vaultRoot cacheDirectory : String) (debug : Bool) :
    ofEntries? [(vaultRootKey, .text vaultRoot), (cacheDirectoryKey, .text cacheDirectory),
      (debugKey, .flag debug)] =
      some ⟨⟨vaultRoot⟩, ⟨cacheDirectory⟩, debug⟩ :=
  rfl

/-- **Settings are read back from their text.** -/
theorem ofText?_toText (s : Settings) : ofText? s.toText = some s := by
  have hkeys : ∀ key ∈ [vaultRootKey, cacheDirectoryKey, debugKey], key.toList ≠ [] ∧
      ∀ c ∈ key.toList, Text.isNameChar c = true := by
    have hall : [vaultRootKey, cacheDirectoryKey, debugKey].all (fun key =>
      !key.toList.isEmpty && key.toList.all Text.isNameChar) = true := by decide
    simpa using hall
  simp only [List.forall_mem_cons] at hkeys
  obtain ⟨⟨hvault, hvault'⟩, ⟨hcache, hcache'⟩, ⟨hdebug, hdebug'⟩, -⟩ := hkeys
  have hstatements :
    takeStatements ⟨[], []⟩ (written vaultRootKey.toList (writeText s.vaultRoot.text.toList) ++
      written cacheDirectoryKey.toList (writeText s.cacheDirectory.text.toList) ++
      written debugKey.toList (if s.debug then "true" else "false").toList) =
        some ⟨[(vaultRootKey, .text s.vaultRoot.text),
          (cacheDirectoryKey, .text s.cacheDirectory.text),
          (debugKey, .flag s.debug)], []⟩ := by
    rw [List.append_assoc,
      takeStatements_written hvault hvault' (stands_text _) (assign?_outermost rfl _),
      takeStatements_written hcache hcache' (stands_text _) (assign?_outermost rfl _),
      ← List.append_nil (written debugKey.toList _),
      takeStatements_written hdebug hdebug' (stands_flag _) (assign?_outermost rfl _),
      takeStatements]
    rfl
  have hread : read? s.toText = some [(vaultRootKey, .text s.vaultRoot.text),
      (cacheDirectoryKey, .text s.cacheDirectory.text), (debugKey, .flag s.debug)] := by
    rw [toText_eq, List.append_assoc, read?_written hvault hvault', ← List.append_assoc,
      hstatements]
    rfl
  rw [ofText?, hread, Option.bind_some, ofEntries?_all]

/-! ## As a file -/

section File

variable {s : Settings} {d e : Disk} {p : Path} {now : Instant}

/-- Settings are saved by making a directory and writing a file, if both succeed. -/
theorem save_ok (h : s.save d p now = (.ok (), e)) :
    ∃ d' : Disk, d'.write p s.toText.toUTF8.data.toList now = .ok e := by
  unfold save at h
  split at h
  · exact absurd (Prod.mk.inj h).1 (by simp)
  · rename_i d' _
    split at h
    · exact absurd (Prod.mk.inj h).1 (by simp)
    · rename_i e' hwrite
      obtain rfl := (Prod.mk.inj h).2
      exact ⟨d', hwrite⟩

theorem makeParent_of_target {t : Target} {name : List Char} (ht : d.target p = .ok t)
    (hname : t.name = some name) (now : Instant) : makeParent d p now = (.ok (), d) := by
  unfold makeParent
  split
  · rfl
  · rename_i parent hparent
    rw [makeDirectories_of_target ht hname hparent]
    split <;> rfl

theorem readText_of_save (h : s.save d p now = (.ok (), e)) : e.readText p = .ok s.toText := by
  obtain ⟨d', hwrite⟩ := save_ok h
  exact readText_of_write hwrite

/-- **Settings that were saved are loaded.** -/
theorem load_of_save (h : s.save d p now = (.ok (), e)) : load e p = .ok s := by
  simp only [load, readText_of_save h, ofText?_toText]

/-- **What was saved can be saved again,** and any other settings as well. -/
theorem save_again (h : s.save d p now = (.ok (), e)) (s' : Settings) (now' : Instant) :
    ∃ e', s'.save e p now' = (.ok (), e') := by
  obtain ⟨d', hwrite⟩ := save_ok h
  obtain ⟨t, name, e', ht, hname, hagain⟩ := write_again hwrite s'.toText.toUTF8.data.toList now'
  exact ⟨e', by simp only [save, makeParent_of_target ht hname now', hagain]⟩

end File

end AltRender.Settings

import AltRender.Proofs.Cache.Change
import AltRender.Proofs.Disk.Below

/-!
# `Proofs/Cache/Confined` — no entry leaves the directory of the cache

What names an entry comes from outside: the base name of the source from a path or a URL, the
signatures from the text of an annotation, with its numbers and colours. None of it can lead out of
the cache. The base name is sanitized; a signature writes only what its filter made of the text, in
plain characters; and the name starts with a name character and ends in the extension, so it is
never one of the names that stand for a directory. The parent of an entry's path is therefore the
directory of the cache (`entry_confined`).

The theorem is for the registry that comes with the program. A filter that is added may sign with a
slash, and then its entries do lead out of the cache.
-/

set_option autoImplicit false

namespace AltRender.Cache

open AltRender.Disk AltRender.Text

/-- A character of an entry's name: `[A-Za-z0-9_(),.=#-]`. -/
def isEntryChar (c : Char) : Bool :=
  isNameChar c || "(),.=#".toList.contains c

/-- **The form of an entry's name:** in the characters for it, with a name character first and the
extension at the end. -/
structure IsEntryName (name : String) : Prop where
  chars : ∀ c ∈ name.toList, isEntryChar c = true
  head : ∃ c rest, name.toList = c :: rest ∧ isNameChar c = true
  ending : extension.toList <:+ name.toList

theorem IsEntryName.not_mem {name : String} (h : IsEntryName name) {c : Char}
    (hc : isEntryChar c = false) : c ∉ name.toList := by
  intro hmem
  rw [h.chars c hmem] at hc
  exact Bool.noConfusion hc

/-- The names that stand for directories start with a point. -/
theorem IsEntryName.ne_of_point {name : String} (h : IsEntryName name) (rest : List Char) :
    name ≠ String.ofList ('.' :: rest) := by
  rintro rfl
  obtain ⟨c, rest', hname, hc⟩ := h.head
  rw [String.toList_ofList, List.cons.injEq] at hname
  rw [← hname.1] at hc
  exact absurd hc (by decide)

theorem IsEntryName.plainName {name : String} (h : IsEntryName name) : PlainName name := by
  obtain ⟨c, rest, hname, hc⟩ := h.head
  have hpoint : c ≠ '.' := by
    rintro rfl
    exact absurd hc (by decide)
  refine ⟨h.not_mem (by decide), ?_, ?_⟩
  · rw [hname]
    exact List.cons_ne_nil c rest
  · simp [isDots, hname, hpoint]

/-! ## The characters of a name -/

theorem isEntryChar_of_isPlainChar {c : Char} (h : isPlainChar c = true) :
    isEntryChar c = true := by
  simp only [isPlainChar, Bool.or_eq_true] at h
  rcases h with (hletter | hdigit) | hother
  · simp [isEntryChar, isNameChar, hletter]
  · simp [isEntryChar, isNameChar, hdigit]
  · exact List.all_eq_true.mp (show "-.#".toList.all isEntryChar = true by decide) c
      (List.contains_iff_mem.mp hother)

theorem isEntryChar_of_mem_signatures {c : Chain} (h : c.IsBuiltin) {x : String}
    (hx : x ∈ c.signatures) {d : Char} (hd : d ∈ x.toList) : isEntryChar d = true := by
  rcases Chain.plain_or_mark_of_mem_signatures h hx hd with hplain | hmark
  · exact isEntryChar_of_isPlainChar hplain
  · exact List.all_eq_true.mp (show "(=,)".toList.all isEntryChar = true by decide) d hmark

theorem exists_head_entryName (s : Source) (signatures : List String) (theme : Option Theme) :
    ∃ c rest, (entryName s signatures theme).toList = c :: rest ∧ isNameChar c = true := by
  rw [toList_entryName]
  cases hbase : (sanitize s.baseName).toList with
  | nil => exact ⟨'_', _, rfl, by decide⟩
  | cons c base => exact ⟨c, _, rfl, isNameChar_of_mem_sanitize (hbase ▸ List.mem_cons_self)⟩

theorem isEntryName_entryName (s : Source) {c : Chain} (h : c.IsBuiltin) (theme : Option Theme) :
    IsEntryName (entryName s c.signatures theme) := by
  refine ⟨fun d hd => ?_, exists_head_entryName s c.signatures theme, ?_⟩
  · rcases mem_entryName hd with hname | hextension | ⟨x, hx, hsignature⟩
    · rw [isEntryChar, hname, Bool.true_or]
    · exact List.all_eq_true.mp (show extension.toList.all isEntryChar =
        true by decide) d hextension
    · exact isEntryChar_of_mem_signatures h hx hsignature
  · rw [toList_entryName]
    exact List.suffix_append _ _

/-! ## The path of an entry -/

/-- **Every entry is a child of the directory of its cache,** for any source, annotation and theme:
its name has the form of an entry's name, so no slash, no NUL, and it stands for no directory; and
the path of the entry has this name as its last part and the directory, as a path, as its parent. -/
theorem entry_confined (c : Cache) (s : Source) (text : String) (theme : Option Theme) :
    let signatures := (Registry.builtin.chainOf text).signatures
    let name := entryName s signatures theme
    IsEntryName name ∧ '/' ∉ name.toList ∧ '\u0000' ∉ name.toList ∧ name ≠ "." ∧ name ≠ ".." ∧
      (c.entryPath s signatures theme).fileName? = some name ∧
      ∃ parent, (c.entryPath s signatures theme).parent? = some parent ∧
        parent.components = c.absoluteDirectory.components := by
  intro signatures name
  have hname : IsEntryName name := isEntryName_entryName s (Chain.isBuiltin_chainOf text) theme
  have hplain := hname.plainName
  have hlast : (c.entryPath s signatures theme).fileName? = some name := by
    rw [entryPath, Path.fileName?, Path.components_join _ hplain, List.getLast?_concat]
  refine ⟨hname, hplain.noSlash, hname.not_mem (by decide), hname.ne_of_point [],
    hname.ne_of_point ['.'], hlast, ?_⟩
  exact ⟨c.absoluteDirectory.entrance, Path.parent?_join _ hplain, Path.components_entrance _⟩

end AltRender.Cache

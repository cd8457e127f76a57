import AltRender.Digest
import AltRender.Source
import AltRender.Text.Letters
import AltRender.Theme

/-!
# `Cache/Name` — the names of cache entries

The name of an entry says all that its contents depend on: the source, the filters and the theme.
Its parts are joined with underscores: the base name of the source, in the characters that are safe
in file names; a fingerprint of its identity; the signatures of the filters; and the theme's tag, if
a theme is given.

Main facts: a sanitized name is made of name characters (`isNameChar_of_mem_sanitize`), and a
fingerprint has twelve digits (`length_fingerprint`).
-/

set_option autoImplicit false

namespace AltRender.Cache

open AltRender.Text

/-- A character that is no name character becomes an underscore. -/
def sanitizeChar (c : Char) : Char :=
  if isNameChar c then c else '_'

/-- **The text in the characters that are safe in file names.** -/
def sanitize (text : String) : String :=
  String.ofList (text.toList.map sanitizeChar)

def fingerprintLength : Nat := 12

/-- The first digits of the digest of a source's identity. -/
def fingerprint (s : Source) : String :=
  String.ofList ((Digest.hexDigest s.identity).take fingerprintLength)

/-- What stands between the parts of a name. -/
def separator : String := "_"

def extension : String := ".png"

def nameParts (s : Source) (signatures : List String) (theme : Option Theme) : List String :=
  [sanitize s.baseName, fingerprint s] ++ signatures ++ theme.toList.map Theme.tag

/-- **The name of the entry** for a source, the signatures of a chain and a theme. -/
def entryName (s : Source) (signatures : List String) (theme : Option Theme) : String :=
  String.intercalate separator (nameParts s signatures theme) ++ extension

theorem isNameChar_sanitizeChar (c : Char) : isNameChar (sanitizeChar c) = true := by
  unfold sanitizeChar
  split
  · assumption
  · decide

/-- **A sanitized name has name characters only.** -/
theorem isNameChar_of_mem_sanitize {text : String} {c : Char} (h : c ∈ (sanitize text).toList) :
    isNameChar c = true := by
  simp only [sanitize, String.toList_ofList, List.mem_map] at h
  obtain ⟨c', _, rfl⟩ := h
  exact isNameChar_sanitizeChar c'

theorem length_fingerprint (s : Source) : (fingerprint s).toList.length = fingerprintLength := by
  simp [fingerprint, Digest.length_hexDigest, fingerprintLength]

end AltRender.Cache

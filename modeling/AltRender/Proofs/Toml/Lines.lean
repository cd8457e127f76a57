import AltRender.Proofs.Toml.Text
import AltRender.Toml.Reader

/-!
# `Proofs/Toml/Lines` — items under plain keys, a line each

The simplest settings file is a line for each item: a key of name characters, an equals sign between
two blanks, and the item. Such a line is one statement, whatever follows it (`takeStatements_line`),
if the item is one of those that are known to be read back: a text in whichever form it was written,
or a flag.

Nothing is shown of the rest of the format, with its tables in brackets, dotted keys and arrays:
what is written has none of them. But the reader knows them all, so each step has to see that it is
not taken for one. A key of name characters does not begin a table, and no dot follows it; the item
ends where the line does; and a name that is not in the outermost table yet is put there
(`assign?_outermost`).
-/

set_option autoImplicit false

namespace AltRender.Toml

open AltRender.Text

/-! ## Items -/

/-- What is read as an item up to the end of its line, and does not begin with a blank. -/
def Stands (item : Item) (text : List Char) : Prop :=
  ∀ rest, dropSpaces (text ++ '\n' :: rest) = text ++ '\n' :: rest ∧
    takeItem depthLimit (text ++ '\n' :: rest) = some (item, '\n' :: rest)

theorem stands_text (text : String) : Stands (.text text) (writeText text.toList) := by
  intro rest
  have hread := @takeText_writeText text.toList ('\n' :: rest) (by simp) (by simp)
  obtain ⟨more, hquote | hquote⟩ : ∃ more, writeText text.toList = '"' :: more ∨
    writeText text.toList = '\'' :: more := by
    rw [writeText]
    cases Form.of text.toList
    · exact ⟨_, .inl rfl⟩
    · exact ⟨_, .inr rfl⟩
    · exact ⟨_, .inl rfl⟩
    · exact ⟨_, .inr rfl⟩
  all_goals
    rw [hquote] at hread ⊢
    refine ⟨rfl, ?_⟩
    rw [List.cons_append] at hread ⊢
    rw [takeItem, hread]
    simp only [Option.map_some, String.ofList_toList]

theorem stands_flag (b : Bool) : Stands (.flag b) (if b then "true" else "false").toList := by
  intro rest
  cases b
  · exact ⟨rfl, rfl⟩
  · exact ⟨rfl, rfl⟩

/-! ## Keys -/

variable {key : List Char}

theorem isSpace_of_isNameChar {c : Char} (h : isNameChar c = true) : isSpace c = false := by
  simp only [isSpace, Bool.or_eq_false_iff, beq_eq_false_iff_ne]
  constructor <;> rintro rfl <;> exact absurd h (by decide)

/-- A plain key is one part, which ends at the first character that is no name character. -/
theorem takeShortKey_append (hne : key ≠ []) (hkey : ∀ c ∈ key, isNameChar c = true)
    (rest : List Char) :
    takeShortKey (key ++ ' ' :: '=' :: rest) = some ([String.ofList key], '=' :: rest) := by
  obtain ⟨c, cs, rfl⟩ := List.exists_cons_of_ne_nil hne
  have hc : isNameChar c = true := hkey c List.mem_cons_self
  have hspaces : dropSpaces (c :: cs ++ ' ' :: '=' :: rest) = c :: cs ++ ' ' :: '=' :: rest := by
    rw [List.cons_append, dropSpaces,
      List.dropWhile_cons_of_neg (by simp [isSpace_of_isNameChar hc])]
  have hstop : isNameChar ' ' = false := by decide
  have hpart : takePart (c :: cs ++ ' ' :: '=' :: rest) =
    some (String.ofList (c :: cs), ' ' :: '=' :: rest) := by
    have hname : (c :: cs ++ ' ' :: '=' :: rest).takeWhile isNameChar = c :: cs := by
      rw [List.takeWhile_append_of_pos hkey, List.takeWhile_cons_of_neg (by simp [hstop]),
        List.append_nil]
    have hrest : (c :: cs ++ ' ' :: '=' :: rest).dropWhile isNameChar = ' ' :: '=' :: rest := by
      rw [List.dropWhile_append_of_pos hkey, List.dropWhile_cons_of_neg (by simp [hstop])]
    rw [takePart, hname, hrest]
    · rfl
    all_goals
      rintro more hmore
      obtain rfl := (List.cons.inj hmore).1
      exact absurd hc (by decide)
  have hall : takeKey (c :: cs ++ ' ' :: '=' :: rest) =
    some ([String.ofList (c :: cs)], '=' :: rest) := by
    rw [takeKey, hspaces, hpart]
    rfl
  rw [takeShortKey, hall]
  rfl

/-! ## Statements -/

/-- A key, an equals sign between blanks and an item, with the line break behind them. -/
def written (key item : List Char) : List Char :=
  key ++ " = ".toList ++ item ++ ['\n']

/-- **A line with a key and an item is one statement,** which puts the item under the key. -/
theorem takeStatement_written (hne : key ≠ []) (hkey : ∀ c ∈ key, isNameChar c = true) {item : Item}
    {text : List Char} (hitem : Stands item text) (p : Progress) (rest : List Char) :
    takeStatement p (written key text ++ rest) = (p.assign? [String.ofList key] item).map fun p =>
      (p, rest) := by
  obtain ⟨hspaces, hread⟩ := hitem rest
  have hline : written key text ++ rest = key ++ ' ' :: '=' :: ' ' :: (text ++ '\n' :: rest) := by
    show key ++ [' ', '=', ' '] ++ text ++ ['\n'] ++ rest = _
    simp
  have hitem : dropSpaces (' ' :: (text ++ '\n' :: rest)) = text ++ '\n' :: rest := by
    rw [dropSpaces, List.dropWhile_cons_of_pos (by decide)]
    exact hspaces
  have hend : endLine? ('\n' :: rest) = some rest := rfl
  have hshort := takeShortKey_append hne hkey (' ' :: (text ++ '\n' :: rest))
  obtain ⟨c, cs, rfl⟩ := List.exists_cons_of_ne_nil hne
  have hc : isNameChar c = true := hkey c List.mem_cons_self
  -- No other statement begins with a name character.
  rw [hline, takeStatement, hshort]
  · simp only [hitem, hread, hend, Option.bind_eq_bind, Option.bind_some]
    cases p.assign? [String.ofList (c :: cs)] item <;> rfl
  all_goals
    rintro more hmore
    obtain rfl := (List.cons.inj hmore).1
    exact absurd hc (by decide)

theorem takeStatements_written (hne : key ≠ []) (hkey : ∀ c ∈ key, isNameChar c = true)
    {item : Item} {text : List Char} (hitem : Stands item text) {p p' : Progress}
    (hassign : p.assign? [String.ofList key] item = some p') (rest : List Char) :
    takeStatements p (written key text ++ rest) = takeStatements p' rest := by
  have hstatement := takeStatement_written hne hkey hitem p rest
  rw [hassign, Option.map_some] at hstatement
  have hlong : rest.length < (written key text ++ rest).length := by
    simp only [written, List.length_append, List.length_singleton]
    omega
  obtain ⟨c, cs, rfl⟩ := List.exists_cons_of_ne_nil hne
  have hspaces : dropSpaces (written (c :: cs) text ++ rest) = written (c :: cs) text ++ rest :=
    List.dropWhile_cons_of_neg (by simp [isSpace_of_isNameChar (hkey c List.mem_cons_self)])
  rw [takeStatements, hspaces]
  split
  · rename_i hempty
    exact absurd hempty (by simp [written])
  · rw [hstatement]
    exact if_pos hlong

/-- A new name in the outermost table. -/
theorem assign?_outermost {es : Entries} {name : String} (h : Keyed.lookup name es = none)
    (item : Item) : Progress.assign? ⟨es, []⟩ [name] item = some ⟨Keyed.put name item es, []⟩ := by
  simp [Progress.assign?, descend, assignKey, assign, define, h]

/-- A file that begins with such a line has no byte order mark. -/
theorem read?_written (hne : key ≠ []) (hkey : ∀ c ∈ key, isNameChar c = true)
    (text rest : List Char) :
    read? (String.ofList (written key text ++ rest)) =
      (takeStatements ⟨[], []⟩ (written key text ++ rest)).map Progress.entries := by
  obtain ⟨c, cs, rfl⟩ := List.exists_cons_of_ne_nil hne
  have hmark : c.toNat ≠ 0xFEFF := by
    intro hmark
    obtain rfl : c = Char.ofNat 0xFEFF := Char.toNat_inj.mp hmark
    exact absurd (hkey _ List.mem_cons_self) (by decide)
  simp only [read?, String.toList_ofList, written, List.cons_append, if_neg hmark]

end AltRender.Toml

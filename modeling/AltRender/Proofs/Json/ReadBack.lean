import AltRender.Json.Reader
import AltRender.Proofs.Json.Token

/-!
# `Proofs/Json/ReadBack` — values read back from their texts

The reader is a machine that takes a token at a time, and one lemma says what a token does to it
(`State.run_token`). From that follows what the text of a value does: from every state that a value
can begin in, the machine comes to the state behind this value, whatever is open around it and
whatever follows (`isReadAs_write`). The induction is on the value; for the items of a list and the
fields of an object it goes along them, with what has been read so far on the stack.

Only values that can be written are read back (`IsWritten`): a number that is not finite has no
text, and a text that is no value has none either. What follows a value matters for numbers alone,
which have no end of their own, so that it is enough to know of the text behind a value that a
number does not go on with it (`StandsBehind`).
-/

set_option autoImplicit false

namespace AltRender.Json

open AltRender.Text

/-! ## Values -/

/-- The value has nothing in it that is no text, and each of its numbers is written as one. -/
inductive IsWritten : Json → Prop
  | null : IsWritten .null
  | flag (b : Bool) : IsWritten (.flag b)
  | number {literal : String} {n : Numeral} (h : Numeral.ofText? literal = some n) :
      IsWritten (.number literal)
  | text (s : String) : IsWritten (.text s)
  | list {items : List Json} (h : ∀ item ∈ items, IsWritten item) : IsWritten (.list items)
  | object {fields : List (String × Json)} (h : ∀ field ∈ fields, IsWritten field.2) :
      IsWritten (.object fields)

/-- The state behind a text that is read from a state on. -/
def State.run (s : State) (cs : List Char) : Option State :=
  (tokens? cs).bind fun tokens => tokens.foldlM State.step s

/-- One token is one step. Its text begins with `c` and goes on with `cs`. -/
theorem State.run_token {s s' : State} {token : Token} {c : Char} (cs : List Char)
    {rest : List Char} (hspace : isSpace c = false)
    (htoken : takeToken (c :: (cs ++ rest)) = some (token, rest)) (hstep : s.step token = some s') :
    s.run (c :: (cs ++ rest)) = s'.run rest := by
  have hbody : (c :: (cs ++ rest)).dropWhile isSpace = c :: (cs ++ rest) :=
    List.dropWhile_cons_of_neg (by simp [hspace])
  have hshorter : rest.length < (c :: (cs ++ rest)).length := by
    rw [List.length_cons, List.length_append]
    omega
  have htokens : tokens? (c :: (cs ++ rest)) = (tokens? rest).map (token :: ·) := by
    rw [tokens?]
    simp only [hbody, List.isEmpty_cons, htoken, if_pos hshorter, Bool.false_eq_true, if_false]
  rw [run, run, htokens]
  cases tokens? rest with
  | none => rfl
  | some tokens =>
    show (s.step token).bind (fun s => tokens.foldlM State.step s) = _
    rw [hstep]
    rfl

/-- Behind the end of a text nothing changes. -/
theorem State.run_nil (s : State) : s.run [] = some s := by
  have htokens : tokens? [] = some [] := by
    rw [tokens?]
    rfl
  rw [run, htokens]
  rfl

/-- The state takes whatever begins a value as the beginning of one. -/
def State.Accepts (s : State) (up : List Open) : Prop :=
  ∀ token, token ≠ .closeList → s.step token = State.begin up token

theorem State.accepts_value (up : List Open) : (State.value up).Accepts up := fun _ _ => rfl

theorem State.accepts_listStart (up : List Open) :
    (State.listStart up).Accepts (.list [] :: up) := by
  intro token htoken
  cases token with
  | closeList => exact absurd rfl htoken
  | _ => rfl

/-- A text that a value can stand before: no number goes on with it. -/
def StandsBehind (rest : List Char) : Prop :=
  ∀ c ∈ rest.head?, Numeral.goesOn c = false

/-- The text is read as the value: it leads from where a value can begin to behind this value,
whatever follows. -/
def IsReadAs (text : List Char) (j : Json) : Prop :=
  ∀ {s : State} {up : List Open} {rest : List Char}, s.Accepts up → StandsBehind rest →
    s.run (text ++ rest) = (State.after j up).run rest

section Run

variable {s : State} {up : List Open} {rest : List Char}

/-- A token of one character. -/
theorem State.run_mark {s' : State} {c : Char} {token : Token} (hspace : isSpace c = false)
    (htoken : takeToken (c :: rest) = some (token, rest)) (hstep : s.step token = some s') :
    s.run (c :: rest) = s'.run rest :=
  run_token [] hspace htoken hstep

theorem State.run_quoted {s' : State} {text : String}
    (hstep : s.step (.text (some text)) = some s') :
    s.run (quoted text ++ rest) = s'.run rest :=
  run_token (text.toList.flatMap escaped ++ ['"']) rfl (takeToken_quoted text rest) hstep

theorem isReadAs_number {literal : String} {n : Numeral} (h : Numeral.ofText? literal = some n) :
    IsReadAs literal.toList (.number literal) := by
  intro s up rest hs hrest
  have htoken := takeToken_number h hrest
  obtain ⟨c, cs, hcs, hhead⟩ := Numeral.head_of_take (Numeral.take_of_ofText? h)
  have hspace : isSpace c = false := by
    rw [Bool.eq_false_iff]
    intro hspace
    simp only [isSpace, Bool.or_eq_true, beq_iff_eq] at hspace
    rcases hspace with ((rfl | rfl) | rfl) | rfl <;> exact absurd hhead (by decide)
  rw [hcs] at htoken ⊢
  exact State.run_token cs hspace htoken (hs _ (by simp))

theorem standsBehind_cons {c : Char} {cs : List Char} (h : Numeral.goesOn c = false) :
    StandsBehind (c :: cs) := by
  rintro d hd
  obtain rfl := Option.some.inj hd
  exact h

theorem standsBehind_items (depth : Nat) (items : List Json) (rest : List Char) :
    StandsBehind (writeItems .compact depth items ++ ']' :: rest) := by
  cases items with
  | nil => exact standsBehind_cons (by decide)
  | cons item items => exact standsBehind_cons (by decide)

theorem standsBehind_fields (depth : Nat) (fields : List (String × Json)) (rest : List Char) :
    StandsBehind (writeFields .compact depth fields ++ '\x7d' :: rest) := by
  cases fields with
  | nil => exact standsBehind_cons (by decide)
  | cons field fields => exact standsBehind_cons (by decide)

/-- **The further items of a list are read** if each of them is. -/
theorem State.run_items {depth : Nat} {items : List Json}
    (h : ∀ item ∈ items, IsReadAs (write .compact depth item) item) (v : Json) (done : List Json) :
    (State.after v (.list done :: up)).run (writeItems .compact depth items ++ ']' :: rest) =
      (State.after (.list ((v :: done).reverse ++ items)) up).run rest := by
  induction items generalizing v done with
  | nil =>
    rw [writeItems, List.nil_append, List.append_nil]
    exact run_mark rfl rfl rfl
  | cons item items ih =>
    obtain ⟨hitem, hitems⟩ := List.forall_mem_cons.mp h
    have htext : writeItems .compact depth (item :: items) ++ ']' :: rest =
        ',' :: (write .compact depth item ++ (writeItems .compact depth items ++ ']' :: rest)) := by
      simp [writeItems, Style.lineBreak]
    have hmark : State.step (.after v (.list done :: up)) .comma =
      some (.value (.list (v :: done) :: up)) := rfl
    rw [htext, run_mark rfl rfl hmark, hitem (accepts_value _) (standsBehind_items _ _ _),
      ih hitems]
    simp

/-- The fields of an object that is still open. -/
def opened (fields : List (String × Json)) : List (Option String × Json) :=
  fields.map fun f => (some f.1, f.2)

theorem closeFields_opened (fields : List (String × Json)) :
    closeFields (opened fields) = .object fields.reverse := by
  have hkeys : (opened fields).reverse.mapM (fun f => f.1.map fun key => (key, f.2)) =
    some fields.reverse := by
    rw [opened, ← List.map_reverse]
    exact Directive.mapM_map_of_forall fun f _ => rfl
  rw [closeFields, hkeys]

/-- **The further fields of an object are read** if the value of each of them is. -/
theorem State.run_fields {depth : Nat} {fields : List (String × Json)}
    (h : ∀ field ∈ fields, IsReadAs (write .compact depth field.2) field.2) (key : String)
    (v : Json) (done : List (String × Json)) :
    (State.after v (.object (opened done) (some key) :: up)).run
      (writeFields .compact depth fields ++ '\x7d' :: rest) =
        (State.after (.object (((key, v) :: done).reverse ++ fields)) up).run rest := by
  -- The field in hand is put behind those that are done as soon as the comma is read.
  induction fields generalizing key v done with
  | nil =>
    have hclose : State.step (.after v (.object (opened done) (some key) :: up)) .closeObject =
        some (.after (.object ((key, v) :: done).reverse) up) := by
      rw [← closeFields_opened]
      rfl
    rw [writeFields, List.nil_append, List.append_nil]
    exact run_mark rfl rfl hclose
  | cons field fields ih =>
    obtain ⟨hfield, hfields⟩ := List.forall_mem_cons.mp h
    have htext : writeFields .compact depth (field :: fields) ++ '\x7d' :: rest =
        ',' :: (quoted field.1 ++ ':' ::
          (write .compact depth field.2 ++
            (writeFields .compact depth fields ++ '\x7d' :: rest))) := by
      simp [writeFields, Style.lineBreak, Style.colon]
    have hcomma : State.step (.after v (.object (opened done) (some key) :: up)) .comma =
        some (.key (opened ((key, v) :: done)) up) := rfl
    have hkey : State.step (.key (opened ((key, v) :: done)) up) (.text (some field.1)) =
        some (.colon (opened ((key, v) :: done)) (some field.1) up) := rfl
    have hcolon : State.step (.colon (opened ((key, v) :: done)) (some field.1) up) .colon =
        some (.value (.object (opened ((key, v) :: done)) (some field.1) :: up)) := rfl
    rw [htext, run_mark rfl rfl hcomma, run_quoted hkey, run_mark rfl rfl hcolon,
      hfield (accepts_value _) (standsBehind_fields _ _ _), ih hfields]
    simp

end Run

/-- **What is written for a value is read as this value.** -/
theorem isReadAs_write {j : Json} (h : IsWritten j) (depth : Nat) :
    IsReadAs (write .compact depth j) j := by
  induction h generalizing depth with
  | null =>
    intro s up rest hs hrest
    rw [write]
    exact State.run_token "ull".toList rfl rfl (hs .null (by simp))
  | flag b =>
    intro s up rest hs hrest
    rw [write]
    cases b
    · exact State.run_token "alse".toList rfl rfl (hs (.flag false) (by simp))
    · exact State.run_token "rue".toList rfl rfl (hs (.flag true) (by simp))
  | number h =>
    rw [write]
    exact isReadAs_number h
  | text t =>
    intro s up rest hs hrest
    rw [write]
    exact State.run_quoted (hs _ (by simp))
  | @list items h ih =>
    intro s up rest hs hrest
    have hopen : s.step .openList = some (.listStart up) := hs .openList (by simp)
    -- The first item stands behind the bracket and the others behind a comma, so it is read on its
    -- own and `run_items` takes the others.
    cases items with
    | nil =>
      rw [write]
      exact (State.run_mark rfl rfl hopen).trans (State.run_mark rfl rfl rfl)
    | cons item items =>
      obtain ⟨hitem, hitems⟩ := List.forall_mem_cons.mp ih
      have htext : write .compact depth (.list (item :: items)) ++ rest =
          '[' :: (write .compact (depth + 1) item ++
            (writeItems .compact (depth + 1) items ++ ']' :: rest)) := by
        simp [write, Style.lineBreak]
      rw [htext, State.run_mark rfl rfl hopen,
        hitem _ (State.accepts_listStart up) (standsBehind_items _ _ _)]
      exact State.run_items (fun item hmem => hitems item hmem _) item []
  | @object fields h ih =>
    intro s up rest hs hrest
    have hopen : s.step .openObject = some (.objectStart up) := hs .openObject (by simp)
    cases fields with
    | nil =>
      rw [write]
      exact (State.run_mark rfl rfl hopen).trans (State.run_mark rfl rfl rfl)
    | cons field fields =>
      obtain ⟨hfield, hfields⟩ := List.forall_mem_cons.mp ih
      have htext : write .compact depth (.object (field :: fields)) ++ rest =
          '\x7b' :: (quoted field.1 ++ ':' ::
            (write .compact (depth + 1) field.2 ++
              (writeFields .compact (depth + 1) fields ++ '\x7d' :: rest))) := by
        simp [write, Style.lineBreak, Style.colon]
      have hkey : State.step (.objectStart up) (.text (some field.1)) =
        some (.colon [] (some field.1) up) := rfl
      have hcolon : State.step (.colon [] (some field.1) up) .colon =
          some (.value (.object [] (some field.1) :: up)) := rfl
      rw [htext, State.run_mark rfl rfl hopen, State.run_quoted hkey, State.run_mark rfl rfl hcolon,
        hfield _ (State.accepts_value _) (standsBehind_fields _ _ _)]
      exact State.run_fields (fun field hmem => hfields field hmem _) field.1 field.2 []

/-- **A value is read back from its text** on one line. -/
theorem read?_compactText {j : Json} (h : IsWritten j) : read? (compactText j) = some j := by
  have hrun : State.run (.value []) (write .compact 0 j ++ []) = some (.after j []) := by
    rw [isReadAs_write h 0 (State.accepts_value []) (by simp [StandsBehind]), State.run_nil]
  rw [List.append_nil, State.run] at hrun
  rw [read?, compactText, String.toList_ofList]
  cases htokens : tokens? (write .compact 0 j) with
  | none =>
    rw [htokens] at hrun
    exact absurd hrun (by simp)
  | some tokens =>
    rw [htokens] at hrun
    show (tokens.foldlM State.step (.value [])).bind _ = _
    rw [show tokens.foldlM State.step (.value []) = some (.after j []) from hrun]
    rfl

end AltRender.Json

import AltRender.Proofs.Directive.Compose
import Mathlib.Data.List.Nodup

/-!
# `Proofs/Directive/Place` — what an `@` is

Which `@` starts a directive depends on what was read before it: one in the arguments of a directive
that was accepted is part of them, and one behind a name character is part of a word unless a
directive's name ends there. So each `@` of a text has a *place*, given the directives that were
attempted (`placeOf`), and those that are left are the starts.

Nothing here reads a text from the left to the right. An `@` is given by the text on either side of
it (`Site`), and what a directive at that place takes with it follows from the text behind it alone:
its name, and its arguments if they are accepted (`Site.tail_cases`). An `@` inside of those
arguments lies before their end and so belongs to them (`Site.covers_of_inside`).
-/

set_option autoImplicit false

namespace AltRender.Directive

open AltRender.Text

/-! ## The `@` of a text -/

/-- An `@` of a text: what stands before it and behind it. -/
structure Site where
  before : List Char
  behind : List Char
  deriving DecidableEq

def sitesFrom (before : List Char) : List Char → List Site
  | [] => []
  | c :: rest =>
    if c = '@' then ⟨before, rest⟩ :: sitesFrom (before ++ [c]) rest
      else sitesFrom (before ++ [c]) rest

/-- **Every `@` of a text,** in order. -/
def sites (text : String) : List Site :=
  sitesFrom [] text.toList

namespace Site

def offset (s : Site) : Nat :=
  byteLength s.before

/-- The longest run of name characters behind the `@`. -/
def name (s : Site) : List Char :=
  s.behind.takeWhile isNameChar

/-- The offset of the first character behind the name. -/
def nameEnd (s : Site) : Nat :=
  s.offset + 1 + s.name.length

/-- What stands behind the name. -/
def tail (s : Site) : List Char :=
  s.behind.dropWhile isNameChar

/-- The directive that is read here, if one is. -/
def attempt (s : Site) : Attempt :=
  ⟨s.offset, String.ofList s.name, (readTail s.nameEnd s.tail).1⟩

/-- What stands between the parentheses behind the name, if it is accepted as arguments. -/
def arguments? (s : Site) : Option (List Char) :=
  match s.tail with
  | '(' :: list =>
    match closing s.nameEnd list with
    | .error _ => none
    | .ok closed =>
      match readArguments closed.inside with
      | .error _ => none
      | .ok _ => some closed.inside
  | _ => none

/-- Whether another `@` lies in the arguments of the directive that is read here. -/
def covers (s t : Site) : Bool :=
  match s.arguments? with
  | some inside => s.nameEnd < t.offset && t.offset ≤ s.nameEnd + byteLength inside
  | none => false

end Site

/-! ## Places -/

/-- What an `@` is. -/
inductive Place where
  /-- Part of the arguments of a directive that was accepted with them. -/
  | argument
  /-- An `@` without a name behind it. -/
  | nameless
  /-- The middle of a word that is not the name of a directive. -/
  | word
  /-- The start of a directive. -/
  | start
  deriving DecidableEq, Repr

/-- **The place of an `@`,** given where directives are attempted. -/
def placeOf (attempted : List Site) (s : Site) : Place :=
  if attempted.any fun t => t.covers s then .argument
  else if s.name.isEmpty then .nameless
  else if s.before.getLast?.any isNameChar && !attempted.any fun t =>
    t.nameEnd = s.offset then .word
  else .start

/-- Where directives are attempted in a text. -/
def attempted (text : String) : List Site :=
  (sites text).filter fun s => (attempts text).any fun a => a.offset = s.offset

/-- Every `@` that is not part of arguments or of a word and has a name behind it. -/
def starts (text : String) : List Site :=
  (sites text).filter fun s => placeOf (attempted text) s = .start

/-! ## The order of the `@` -/

/-- **The sites of a text are the ways to split it at an `@`.** -/
theorem mem_sitesFrom {s : Site} {before cs : List Char} :
    s ∈ sitesFrom before cs ↔ ∃ xs ys, cs = xs ++ '@' :: ys ∧ s = ⟨before ++ xs, ys⟩ := by
  induction cs generalizing before with
  | nil => simp [sitesFrom]
  | cons c cs ih =>
    have hrest : s ∈ sitesFrom (before ++ [c]) cs ↔
        ∃ xs ys, c :: cs = c :: xs ++ '@' :: ys ∧ s = ⟨before ++ c :: xs, ys⟩ := by
      rw [ih]
      simp
    rw [sitesFrom]
    constructor
    · intro h
      split at h
      · rename_i hc
        rcases List.mem_cons.mp h with rfl | h
        · exact ⟨[], cs, by rw [hc, List.nil_append], by rw [List.append_nil]⟩
        · obtain ⟨xs, ys, hcs, hs⟩ := hrest.mp h
          exact ⟨c :: xs, ys, hcs, hs⟩
      · obtain ⟨xs, ys, hcs, hs⟩ := hrest.mp h
        exact ⟨c :: xs, ys, hcs, hs⟩
    · rintro ⟨xs, ys, hcs, rfl⟩
      cases xs with
      | nil =>
        obtain ⟨rfl, rfl⟩ := List.cons.inj hcs
        rw [if_pos rfl, List.append_nil]
        exact List.mem_cons_self
      | cons x xs =>
        obtain ⟨rfl, -⟩ := List.cons.inj hcs
        have hmem := hrest.mpr ⟨xs, ys, hcs, rfl⟩
        split
        · exact List.mem_cons_of_mem _ hmem
        · exact hmem

theorem le_offset_of_mem {s : Site} {before cs : List Char} (h : s ∈ sitesFrom before cs) :
    byteLength before ≤ s.offset := by
  obtain ⟨xs, ys, -, rfl⟩ := mem_sitesFrom.mp h
  rw [Site.offset, byteLength_append]
  exact Nat.le_add_right _ _

/-- **The sites of a text stand in the order of their offsets.** -/
theorem pairwise_sitesFrom (before cs : List Char) :
    (sitesFrom before cs).Pairwise fun s t => s.offset < t.offset := by
  induction cs generalizing before with
  | nil => exact .nil
  | cons c cs ih =>
    rw [sitesFrom]
    split
    · refine List.pairwise_cons.mpr ⟨fun t ht => ?_, ih _⟩
      have hle := le_offset_of_mem ht
      rw [byteLength_append, byteLength_cons, byteLength_nil] at hle
      have hsize := c.utf8Size_pos
      show byteLength before < t.offset
      omega
    · exact ih _

/-- A site is known by its offset. -/
theorem eq_of_offset_eq {before cs : List Char} {s t : Site} (hs : s ∈ sitesFrom before cs)
    (ht : t ∈ sitesFrom before cs) (h : s.offset = t.offset) : s = t := by
  have hdistinct : ((sitesFrom before cs).map Site.offset).Nodup :=
    List.pairwise_map.mpr ((pairwise_sitesFrom before cs).imp Nat.ne_of_lt)
  exact List.inj_on_of_nodup_map hdistinct hs ht h

/-- Text none of whose sites are kept has no part in what is kept. -/
theorem filter_sitesFrom_append {p : Site → Bool} {before cs : List Char} (ds : List Char)
    (h : ∀ xs ys, cs = xs ++ '@' :: ys → p ⟨before ++ xs, ys ++ ds⟩ = false) :
    (sitesFrom before (cs ++ ds)).filter p = (sitesFrom (before ++ cs) ds).filter p := by
  induction cs generalizing before with
  | nil => rw [List.nil_append, List.append_nil]
  | cons c cs ih =>
    have hrest : (sitesFrom (before ++ [c]) (cs ++ ds)).filter p =
      (sitesFrom (before ++ c :: cs) ds).filter p := by
      rw [ih fun xs ys hcs => ?_, List.append_assoc, List.singleton_append]
      have hx := h (c :: xs) ys (by rw [hcs, List.cons_append])
      rwa [List.append_assoc, List.singleton_append]
    rw [List.cons_append, sitesFrom]
    split
    · rename_i hc
      have hfirst := h [] cs (by rw [hc, List.nil_append])
      rw [List.append_nil] at hfirst
      rw [List.filter_cons_of_neg (by rw [hfirst]; decide), hrest]
    · exact hrest

/-! ## What lies behind a directive -/

theorem Site.offset_lt_nameEnd (s : Site) : s.offset < s.nameEnd := by
  rw [nameEnd]
  omega

/-- The directive was read before an offset: nothing from there on belongs to it. -/
structure Site.Passed (offset : Nat) (s : Site) : Prop where
  name : s.nameEnd ≤ offset
  arguments : ∀ t : Site, offset ≤ t.offset → s.covers t = false

theorem Site.Passed.mono {offset offset' : Nat} (hle : offset ≤ offset') {s : Site}
    (h : s.Passed offset) : s.Passed offset' :=
  ⟨Nat.le_trans h.name hle, fun t ht => h.arguments t (Nat.le_trans hle ht)⟩

/-- What is read behind a name: arguments that are accepted, with their parentheses, or nothing. -/
theorem Site.tail_cases (s : Site) :
    (s.arguments? = none ∧ (readTail s.nameEnd s.tail).2 = (s.nameEnd, s.tail)) ∨
      ∃ inside beyond, s.arguments? = some inside ∧ s.tail = '(' :: (inside ++ ')' :: beyond) ∧
        (readTail s.nameEnd s.tail).2 = (s.nameEnd + byteLength inside + 2, beyond) := by
  generalize htail : s.tail = cs
  generalize hresult : readTail s.nameEnd cs = result
  cases readTail_cases hresult with
  | bare hcs =>
    refine .inl ⟨?_, rfl⟩
    unfold arguments?
    split
    · rename_i list hlist
      exact absurd (by rw [← htail, hlist]; rfl) hcs
    · rfl
  | unclosed hclosing => exact .inl ⟨by simp [arguments?, htail, hclosing], rfl⟩
  | refused hclosing hread => exact .inl ⟨by simp [arguments?, htail, hclosing, hread], rfl⟩
  | @listed list closed _ hclosing hread =>
    exact .inr ⟨closed.inside, closed.beyond, by simp [arguments?, htail, hclosing, hread],
      by rw [closing_append hclosing], rfl⟩

theorem Site.covers_of_none {s : Site} (h : s.arguments? = none) (t : Site) :
    s.covers t = false := by
  rw [covers, h]

theorem Site.covers_iff {s : Site} {inside : List Char} (h : s.arguments? = some inside)
    (t : Site) :
    s.covers t = true ↔ s.nameEnd < t.offset ∧ t.offset ≤ s.nameEnd + byteLength inside := by
  rw [covers, h]
  simp

/-- Nothing before the end of its name belongs to a directive's arguments. -/
theorem Site.covers_of_le {s t : Site} (h : t.offset ≤ s.nameEnd) : s.covers t = false := by
  cases hargs : s.arguments? with
  | none => exact covers_of_none hargs t
  | some inside =>
    rw [Bool.eq_false_iff, Ne, covers_iff hargs]
    omega

theorem Site.isNameChar_of_mem_name (s : Site) : ∀ c ∈ s.name, isNameChar c = true :=
  List.all_eq_true.mp List.all_takeWhile

/-- A character that the first part does not have stands in the second. -/
theorem exists_of_append_eq_append_cons {α : Type} {x : α} {front back xs ys : List α}
    (hx : x ∉ front) (h : front ++ back = xs ++ x :: ys) :
    ∃ us, xs = front ++ us ∧ back = us ++ x :: ys := by
  rcases List.append_eq_append_iff.mp h with ⟨us, hxs, hback⟩ | ⟨us, hfront, hrest⟩
  · exact ⟨us, hxs, hback⟩
  · cases us with
    | nil => exact ⟨[], by rw [hfront, List.append_nil, List.append_nil], hrest.symm⟩
    | cons u us =>
      obtain ⟨rfl, -⟩ := List.cons.inj hrest
      exact absurd (by rw [hfront]; simp) hx

/-- An `@` between a name and the closing parenthesis behind it is one of the arguments. -/
theorem Site.covers_of_inside {s : Site} {before inside xs ys : List Char}
    (hend : byteLength (before ++ '@' :: s.name) = s.nameEnd) (hsome : s.arguments? = some inside)
    (hxs : s.name ++ '(' :: (inside ++ [')']) = xs ++ '@' :: ys) (zs : List Char) :
    s.covers ⟨before ++ '@' :: xs, zs⟩ = true := by
  have hopen : '@' ∉ s.name ++ ['('] := by
    rw [List.mem_append, List.mem_singleton, not_or]
    exact ⟨fun hmem => absurd (s.isNameChar_of_mem_name '@' hmem) (by decide), by decide⟩
  have hsplit : s.name ++ ['('] ++ (inside ++ [')']) = xs ++ '@' :: ys := by simpa using hxs
  obtain ⟨us, rfl, hus⟩ := exists_of_append_eq_append_cons hopen hsplit
  -- The last character behind the opening parenthesis is the closing one, so it is not the `@`.
  have hys : ys ≠ [] := by
    rintro rfl
    exact absurd (List.append_inj' hus rfl).2 (by decide)
  have hlong := congrArg byteLength hus
  have hpos : 0 < byteLength ys := by
    cases ys with
    | nil => exact absurd rfl hys
    | cons y ys => exact Nat.add_pos_left y.utf8Size_pos _
  rw [covers_iff hsome]
  simp only [Site.offset, byteLength_append, byteLength_cons, byteLength_nil,
    show '('.utf8Size = 1 from rfl, show ')'.utf8Size = 1 from rfl,
    show '@'.utf8Size = 1 from rfl] at hend hlong ⊢
  omega

end AltRender.Directive

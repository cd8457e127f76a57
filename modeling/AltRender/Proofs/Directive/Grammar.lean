import AltRender.Proofs.Directive.Value
import AltRender.Proofs.Keyed
import Mathlib.Data.List.Forall2

/-!
# `Proofs/Directive/Grammar` — which argument lists are accepted

The reader of an argument list cuts, trims and tries one form after the other. What it accepts can
be said without it: a list is cut into pieces at the commas outside quotes (`IsCut`), and each piece
that is not blank has to be a key or a key with a value (`IsArgument`), where a value is a numeral,
a quoted text or a word (`IsValue`). The reader accepts just these lists, and refuses any other for
the first piece that breaks a rule (`readArguments_grammar`).

Refusing is described as fully as accepting. A piece may break several rules at once; `Breaks` says
which of them is reported and with what text, and the reader stops at the first piece that breaks
one (`mapM_eq_error_iff`), whatever comes after it.
-/

set_option autoImplicit false

namespace AltRender.Directive

open AltRender.Text AltRender.Decimal

/-! ## Arguments -/

/-- **The forms of an argument,** with the key and the value that each of them gives. -/
inductive IsArgument (entry : List Char) : String × Value → Prop
  | flag (hkey : isKey entry = true) : IsArgument entry (String.ofList entry, .flag true)
  | value {left right : List Char} {v : Value} (hcut : IsCut '=' entry [left, right])
      (hkey : isKey (trim left) = true) (hvalue : IsValue (trim right) v) :
      IsArgument entry (String.ofList (trim left), v)

/-- **The rules that an entry can break,** with the problem that is reported for it: more equals
signs than one, a key that is none, a value that has none of the forms. Of two rules it breaks the
one named first counts. -/
inductive Breaks (entry : List Char) : Problem → Prop
  | signs (h : 1 < bareCount '=' entry) :
      Breaks entry (.badValue (String.ofList entry) (String.ofList entry))
  | key {left : List Char} {right : List (List Char)} (hfew : bareCount '=' entry ≤ 1)
      (hcut : IsCut '=' entry (left :: right)) (hkey : isKey (trim left) = false) :
      Breaks entry (.badKey (String.ofList (trim left)))
  | value {left right : List Char} (hcut : IsCut '=' entry [left, right])
      (hkey : isKey (trim left) = true) (hvalue : ∀ v, ¬ IsValue (trim right) v) :
      Breaks entry (.badValue (String.ofList (trim left)) (String.ofList (trim right)))

/-! ## Entries -/

theorem isCut_lone {delimiter : Char} {cs piece : List Char} (h : IsCut delimiter cs [piece]) :
    piece = cs := by
  cases h with
  | last => rfl
  | next _ _ hrest => cases hrest

/-- A key has no sign in it. -/
theorem isCut_of_isKey {entry : List Char} (h : isKey entry = true) : IsCut '=' entry [entry] := by
  have hword : ∀ c ∈ entry, isWordChar c = true :=
    fun c hc => isWordChar_of_isNameChar (List.all_eq_true.mp (Bool.and_eq_true_iff.mp h).2 c hc)
  exact isCut_iff.mpr (pieces_of_isSealed ((isSealed_of_isWordChar hword).mono (by decide))).symm

section Entry

variable {entry : List Char}

theorem readEntry_lone (htrim : trim entry = entry) (h : IsCut '=' entry [entry]) :
    readEntry entry = if isKey entry then .ok (String.ofList entry, .flag true)
      else .error (.badKey (String.ofList entry)) := by
  rw [readEntry, ← isCut_iff.mp h, List.map_singleton, htrim]

theorem readEntry_pair {left right : List Char} (h : IsCut '=' entry [left, right]) :
    readEntry entry = if isKey (trim left) then
      match readValue (trim right) with
      | some v => .ok (String.ofList (trim left), v)
      | none => .error (.badValue (String.ofList (trim left)) (String.ofList (trim right)))
      else .error (.badKey (String.ofList (trim left))) := by
  rw [readEntry, ← isCut_iff.mp h]
  rfl

theorem readEntry_signs (h : 1 < bareCount '=' entry) :
    readEntry entry = .error (.badValue (String.ofList entry) (String.ofList entry)) := by
  have hthree : 2 < (pieces '=' entry).length := by
    rw [(isCut_pieces '=' entry).length (by decide)]
    exact Nat.succ_lt_succ h
  rw [readEntry]
  generalize pieces '=' entry = ps at hthree
  obtain _ | ⟨first, _ | ⟨second, _ | ⟨third, rest⟩⟩⟩ := ps
  · exact absurd hthree (by simp)
  · exact absurd hthree (by simp)
  · exact absurd hthree (by simp)
  · rfl

/-- **An entry is one argument or breaks one rule,** and is read so. -/
theorem readEntry_spec (htrim : trim entry = entry) :
    (∃ argument, readEntry entry = .ok argument ∧ IsArgument entry argument) ∨
      ∃ problem, readEntry entry = .error problem ∧ Breaks entry problem := by
  have hcut := isCut_pieces '=' entry
  have hlength := hcut.length (by decide)
  -- By the number of pieces: none is impossible, one is a flag, two are a value, and more have a
  -- sign too many.
  match hps : pieces '=' entry with
  | [] =>
    rw [hps] at hlength
    exact absurd hlength (by simp)
  | [piece] =>
    rw [hps] at hcut hlength
    obtain rfl := isCut_lone hcut
    rw [readEntry_lone htrim hcut]
    cases hkey : isKey piece with
    | true => exact .inl ⟨_, rfl, .flag hkey⟩
    | false =>
      have hbreaks := Breaks.key (by simp at hlength; omega) hcut (by rwa [htrim])
      rw [htrim] at hbreaks
      exact .inr ⟨_, rfl, hbreaks⟩
  | [left, right] =>
    rw [hps] at hcut hlength
    rw [readEntry_pair hcut]
    cases hkey : isKey (trim left) with
    | true =>
      cases hvalue : readValue (trim right) with
      | some v => exact .inl ⟨_, rfl, .value hcut hkey (readValue_eq_some_iff.mp hvalue)⟩
      | none =>
        refine .inr ⟨_, rfl, .value hcut hkey fun v hv => ?_⟩
        rw [readValue_eq_some_iff.mpr hv] at hvalue
        exact absurd hvalue (by simp)
    | false => exact .inr ⟨_, rfl, .key (by simp at hlength; omega) hcut hkey⟩
  | left :: right :: third :: more =>
    have hsigns : 1 < bareCount '=' entry := by
      rw [hps] at hlength
      simp only [List.length_cons] at hlength
      omega
    exact .inr ⟨_, readEntry_signs hsigns, .signs hsigns⟩

theorem readEntry_eq_ok_iff (htrim : trim entry = entry) {argument : String × Value} :
    readEntry entry = .ok argument ↔ IsArgument entry argument := by
  constructor
  · intro h
    obtain ⟨argument', hread, hargument⟩ | ⟨problem, hread, -⟩ := readEntry_spec htrim
    · obtain rfl := Except.ok.inj (h.symm.trans hread)
      exact hargument
    · exact absurd (h.symm.trans hread) (by simp)
  · intro h
    cases h with
    | flag hkey => rw [readEntry_lone htrim (isCut_of_isKey hkey), if_pos hkey]
    | value hcut hkey hvalue =>
      rw [readEntry_pair hcut, if_pos hkey]
      simp only [readValue_eq_some_iff.mpr hvalue]

theorem readEntry_eq_error_iff (htrim : trim entry = entry) {problem : Problem} :
    readEntry entry = .error problem ↔ Breaks entry problem := by
  constructor
  · intro h
    obtain ⟨argument, hread, -⟩ | ⟨problem', hread, hbreaks⟩ := readEntry_spec htrim
    · exact absurd (h.symm.trans hread) (by simp)
    · obtain rfl := Except.error.inj (h.symm.trans hread)
      exact hbreaks
  · intro h
    -- The pieces are determined by the entry, so a key that fails is the one that was read.
    cases h with
    | signs hsigns => exact readEntry_signs hsigns
    | key hfew hcut hkey =>
      rename_i left right
      have hlength := hcut.length (by decide)
      match right with
      | [] =>
        obtain rfl := isCut_lone hcut
        rw [readEntry_lone htrim hcut]
        rw [htrim] at hkey ⊢
        rw [hkey]
        rfl
      | [value] =>
        rw [readEntry_pair hcut, hkey]
        rfl
      | value :: third :: more =>
        simp only [List.length_cons] at hlength
        omega
    | value hcut hkey hvalue =>
      have hnone : readValue (trim _) = none :=
        Option.eq_none_iff_forall_ne_some.mpr fun v hv => hvalue v (readValue_eq_some_iff.mp hv)
      rw [readEntry_pair hcut, if_pos hkey, hnone]

end Entry

/-! ## Lists of arguments -/

section Attempts

variable {α β ε : Type} {f : α → Except ε β}

/-- A list of attempts succeeds if each of them does. -/
theorem mapM_eq_ok_iff {xs : List α} {ys : List β} :
    xs.mapM f = .ok ys ↔ List.Forall₂ (fun x y => f x = .ok y) xs ys := by
  -- Item by item: the first result is that of the first item, and the others are those of the rest.
  induction xs generalizing ys with
  | nil =>
    rw [List.mapM_nil, List.forall₂_nil_left_iff]
    exact ⟨fun h => (Except.ok.inj h).symm, fun h => h ▸ rfl⟩
  | cons x xs ih =>
    rw [List.mapM_cons, List.forall₂_cons_left_iff]
    cases hx : f x with
    | error e =>
      exact ⟨fun h => absurd h (by simp [bind, Except.bind]),
        fun ⟨_, _, h, _⟩ => absurd h (by simp)⟩
    | ok y =>
      cases hxs : xs.mapM f with
      | error e =>
        refine ⟨fun h => absurd h (by simp [bind, Except.bind]), fun ⟨_, ys', _, hall, _⟩ => ?_⟩
        exact absurd (hxs.symm.trans (ih.mpr hall)) (by simp)
      | ok ys' =>
        constructor
        · intro h
          exact ⟨y, ys', rfl, ih.mp hxs, (Except.ok.inj h).symm⟩
        · rintro ⟨z, zs, hz, hzs, rfl⟩
          obtain rfl := Except.ok.inj hz
          obtain rfl := Except.ok.inj (hxs.symm.trans (ih.mpr hzs))
          rfl

/-- It fails as the first that fails. -/
theorem mapM_eq_error_iff {xs : List α} {e : ε} :
    xs.mapM f = .error e ↔
      ∃ before x after, xs = before ++ x :: after ∧ (∀ y ∈ before, ∃ z, f y = .ok z) ∧
        f x = .error e := by
  induction xs with
  | nil =>
    exact ⟨fun h => absurd h (by simp [pure, Except.pure]),
      fun ⟨_, _, _, h, _⟩ => absurd h (by simp)⟩
  | cons x xs ih =>
    rw [List.mapM_cons]
    -- Reading stops at the first item that fails, so the items in front of it are those that do
    -- not.
    cases hx : f x with
    | error e' =>
      constructor
      · intro h
        obtain rfl := Except.error.inj h
        exact ⟨[], x, xs, rfl, List.forall_mem_nil _, hx⟩
      · rintro ⟨before, y, after, hxs, hbefore, hy⟩
        cases before with
        | nil =>
          obtain ⟨rfl, rfl⟩ := List.cons.inj hxs
          obtain rfl := Except.error.inj (hx.symm.trans hy)
          rfl
        | cons z before =>
          obtain ⟨rfl, -⟩ := List.cons.inj hxs
          obtain ⟨z', hz⟩ := hbefore _ List.mem_cons_self
          exact absurd (hx.symm.trans hz) (by simp)
    | ok y =>
      have hrest : (do let ys ← xs.mapM f; pure (y :: ys)) = Except.error e ↔
        xs.mapM f = .error e := by
        cases xs.mapM f <;> simp [bind, Except.bind, pure, Except.pure]
      refine (Iff.trans hrest ih).trans ⟨?_, ?_⟩
      · rintro ⟨before, z, after, rfl, hbefore, hz⟩
        exact ⟨x :: before, z, after, rfl, List.forall_mem_cons.mpr ⟨⟨y, hx⟩, hbefore⟩, hz⟩
      · rintro ⟨before, z, after, hxs, hbefore, hz⟩
        cases before with
        | nil =>
          obtain ⟨rfl, -⟩ := List.cons.inj hxs
          exact absurd (hx.symm.trans hz) (by simp)
        | cons w before =>
          obtain ⟨rfl, rfl⟩ := List.cons.inj hxs
          exact ⟨before, z, after, rfl, (List.forall_mem_cons.mp hbefore).2, hz⟩

end Attempts

/-- The pieces that count: without the blanks around them, and not empty. -/
def counted (ps : List (List Char)) : List (List Char) :=
  (ps.map trim).filter fun entry => !entry.isEmpty

section Counted

variable {ps : List (List Char)}

theorem trim_of_mem_counted {entry : List Char} (h : entry ∈ counted ps) : trim entry = entry := by
  obtain ⟨piece, -, rfl⟩ := List.mem_map.mp (List.mem_filter.mp h).1
  exact trim_trim piece

theorem forall_mem_counted {P : List Char → Prop} :
    (∀ entry ∈ counted ps, P entry) ↔ ∀ piece ∈ ps, trim piece = [] ∨ P (trim piece) := by
  simp only [counted, List.mem_filter, List.mem_map, Bool.not_eq_true', List.isEmpty_eq_false_iff]
  constructor
  · intro h piece hpiece
    by_cases hnil : trim piece = []
    · exact .inl hnil
    · exact .inr (h _ ⟨⟨piece, hpiece, rfl⟩, hnil⟩)
  · rintro h _ ⟨⟨piece, hpiece, rfl⟩, hnil⟩
    exact (h piece hpiece).resolve_left hnil

theorem mapM_readEntry_eq_ok_iff {arguments : List (String × Value)} :
    (counted ps).mapM readEntry = .ok arguments ↔
      List.Forall₂ IsArgument (counted ps) arguments := by
  have htrim : ∀ entry ∈ counted ps, trim entry = entry := fun _ => trim_of_mem_counted
  rw [mapM_eq_ok_iff]
  constructor
  · intro h
    exact ((List.forall₂_and_left _ _).mpr ⟨htrim, h⟩).imp fun entry argument hentry =>
      (readEntry_eq_ok_iff hentry.1).mp hentry.2
  · intro h
    exact ((List.forall₂_and_left _ _).mpr ⟨htrim, h⟩).imp fun entry argument hentry =>
      (readEntry_eq_ok_iff hentry.1).mpr hentry.2

theorem mapM_readEntry_eq_error_iff {problem : Problem} :
    (counted ps).mapM readEntry = .error problem ↔
      ∃ before entry after, counted ps = before ++ entry :: after ∧
        (∀ other ∈ before, ∃ argument, IsArgument other argument) ∧ Breaks entry problem := by
  rw [mapM_eq_error_iff]
  refine exists_congr fun before => exists_congr fun entry => exists_congr fun after =>
    and_congr_right fun hsplit => ?_
  have htrim : ∀ other ∈ before ++ entry :: after, trim other = other :=
    fun _ hmem => trim_of_mem_counted (hsplit ▸ hmem)
  refine and_congr ⟨fun h other hmem => ?_,
    fun h other hmem => ?_⟩ (readEntry_eq_error_iff (htrim entry (by simp)))
  · obtain ⟨argument, hread⟩ := h other hmem
    exact ⟨argument, (readEntry_eq_ok_iff (htrim other (by simp [hmem]))).mp hread⟩
  · obtain ⟨argument, hargument⟩ := h other hmem
    exact ⟨argument, (readEntry_eq_ok_iff (htrim other (by simp [hmem]))).mpr hargument⟩

end Counted

theorem exists_forall₂_iff {α β : Type} {R : α → β → Prop} {xs : List α} :
    (∃ ys, List.Forall₂ R xs ys) ↔ ∀ x ∈ xs, ∃ y, R x y := by
  induction xs with
  | nil => exact ⟨fun _ => List.forall_mem_nil _, fun _ => ⟨[], .nil⟩⟩
  | cons x xs ih =>
    rw [List.forall_mem_cons, ← ih]
    constructor
    · rintro ⟨_, hx | ⟨hx, hxs⟩⟩
      exact ⟨⟨_, hx⟩, _, hxs⟩
    · rintro ⟨⟨y, hx⟩, ys, hxs⟩
      exact ⟨y :: ys, .cons hx hxs⟩

theorem readArguments_eq_ok_iff {cs : List Char} {parameters : Parameters} :
    readArguments cs = .ok parameters ↔
      ∃ arguments, List.Forall₂ IsArgument (counted (pieces ',' cs)) arguments ∧
        parameters.Gathers arguments := by
  have hread : readArguments cs = ((counted (pieces ',' cs)).mapM readEntry).map Keyed.ofList := rfl
  constructor
  · intro h
    rw [hread] at h
    cases hall : (counted (pieces ',' cs)).mapM readEntry with
    | error problem =>
      rw [hall] at h
      exact absurd h (by simp [Except.map])
    | ok arguments =>
      rw [hall] at h
      exact ⟨arguments, mapM_readEntry_eq_ok_iff.mp hall, Keyed.gathers_iff.mpr (Except.ok.inj h)⟩
  · rintro ⟨arguments, hall, hgathers⟩
    rw [hread, mapM_readEntry_eq_ok_iff.mpr hall, ← Keyed.gathers_iff.mp hgathers]
    rfl

theorem readArguments_eq_error_iff {cs : List Char} {problem : Problem} :
    readArguments cs = .error problem ↔
      ∃ before entry after, counted (pieces ',' cs) = before ++ entry :: after ∧
        (∀ other ∈ before, ∃ argument, IsArgument other argument) ∧ Breaks entry problem := by
  have hread : readArguments cs = ((counted (pieces ',' cs)).mapM readEntry).map Keyed.ofList := rfl
  rw [hread, ← mapM_readEntry_eq_error_iff]
  cases (counted (pieces ',' cs)).mapM readEntry <;> simp [Except.map]

/-- **Which argument lists are accepted, as what, and what is said of the others.** A list is cut at
its commas outside quotes in one way. It is accepted if each piece that is not blank has one of the
forms of an argument; its parameters are then gathered from these arguments. Otherwise the first
piece that breaks a rule gives the problem. -/
theorem readArguments_grammar (cs : List Char) : ∃ ps, (∀ qs, IsCut ',' cs qs ↔ qs = ps) ∧
    ((∃ parameters, readArguments cs = .ok parameters) ↔
      ∀ piece ∈ ps, trim piece = [] ∨ ∃ argument, IsArgument (trim piece) argument) ∧
    (∀ parameters, readArguments cs = .ok parameters ↔
      ∃ arguments, List.Forall₂ IsArgument (counted ps) arguments ∧ parameters.Gathers arguments) ∧
    ∀ problem, readArguments cs = .error problem ↔
      ∃ before entry after, counted ps = before ++ entry :: after ∧
        (∀ other ∈ before, ∃ argument, IsArgument other argument) ∧ Breaks entry problem := by
  refine ⟨pieces ',' cs, fun _ => isCut_iff, ?_, fun _ => readArguments_eq_ok_iff,
    fun _ => readArguments_eq_error_iff⟩
  rw [← forall_mem_counted (P := fun entry => ∃ argument, IsArgument entry argument),
    ← exists_forall₂_iff]
  constructor
  · rintro ⟨parameters, h⟩
    obtain ⟨arguments, hall, -⟩ := readArguments_eq_ok_iff.mp h
    exact ⟨arguments, hall⟩
  · rintro ⟨arguments, hall⟩
    exact ⟨Keyed.ofList arguments,
      readArguments_eq_ok_iff.mpr ⟨arguments, hall, Keyed.gathers_ofList arguments⟩⟩

end AltRender.Directive

import AltRender.Proofs.Glob.Literal

/-!
# `Proofs/Glob/Matching` — when a pattern stands for a path, and in how many ways

A pattern, component by component, stands for the names on the way to a file. A component without
meaning stays where it is, any other one stands for a name, and two stars stand for any number of
directories (`Matches`). Two stars leave a choice: with another two of them further on there may be
several ways for the same names (`ways`). With one run of them at most there is one way at most
(`ways_le_one`).

Whether there is a way (`Matches`) is what users mean by a pattern, and how many (`ways`) is what a
search computes, since it lists a file once for each of them. Both are defined along the pattern and
the names, without a disk.

There is one surprise in single components. A pattern that begins with a dot and then has a star
stands for two dots too (`fits_up`), and would lead up.
-/

set_option autoImplicit false

namespace AltRender.Glob

open AltRender.Disk AltRender.Text

/-! ## Components -/

theorem fits_literal (text cs : List Char) : (literal text).fits cs = true ↔ cs = text := by
  induction text generalizing cs with
  | nil =>
    rw [literal, List.map_nil, Pattern.fits_nil, List.isEmpty_iff]
  | cons c text ih =>
    cases cs with
    | nil =>
      rw [literal, List.map_cons, Pattern.fits_cons_nil]
      simp [Token.isRun]
    | cons c' cs =>
      rw [literal, List.map_cons, Pattern.fits_cons, if_neg (by simp [Token.isRun]),
        Bool.and_eq_true, show text.map Token.char = literal text from rfl, ih, List.cons.injEq]
      rw [Token.accepts, beq_iff_eq, @eq_comm _ c c']

theorem isAnyPath_literal (text : List Char) : (literal text).isAnyPath = false := by
  simp [literal, Pattern.isAnyPath]

/-- **A pattern that begins with a dot and stands for the dot alone by a star stands for two dots as
well.** -/
theorem fits_up {q : Pattern} (hdot : q.head? = some (.char '.')) (hliteral : q.literal? = none)
    (h : q.fits ['.'] = true) : q.fits ['.', '.'] = true := by
  obtain ⟨ts, rfl⟩ := List.head?_eq_some_iff.mp hdot
  rw [Pattern.fits_cons, if_neg (by simp [Token.isRun]), Bool.and_eq_true] at h ⊢
  refine ⟨h.1, ?_⟩
  cases ts with
  | nil => exact absurd hliteral (by simp [Pattern.literal?])
  | cons t ts =>
    have hrest := h.2
    rw [Pattern.fits_cons_nil, Bool.and_eq_true] at hrest
    rw [Pattern.fits_cons, if_pos hrest.1, h.2, Bool.or_true]

/-- Whether a component stays where it is: it is empty, or the dot that stands for the directory it
is in. -/
def Pattern.isStay (q : Pattern) : Bool :=
  match q.literal? with
  | some text => Path.isRedundant text
  | none => false

theorem isStay_literal (text : List Char) : (literal text).isStay = Path.isRedundant text := by
  rw [Pattern.isStay, literal?_literal]

theorem isAnyPath_of_isStay {q : Pattern} (h : q.isStay = true) : q.isAnyPath = false := by
  unfold Pattern.isStay at h
  split at h
  · rename_i text hliteral
    rw [literal_of_literal? hliteral]
    exact isAnyPath_literal text
  · exact absurd h (by simp)

/-! ## Matching -/

/-- **Whether a pattern stands for the names on the way to a file.** Two stars at the end stand for
directories only, and the component behind two stars has to stand for a name. -/
inductive Matches : List Pattern → List String → Prop where
  | done : Matches [] []
  | stay {q : Pattern} {rest : List Pattern} {names : List String} (hstay : q.isStay = true)
      (hnames : names ≠ []) (h : Matches rest names) : Matches (q :: rest) names
  | name {q : Pattern} {rest : List Pattern} {name : String} {names : List String}
      (hstay : q.isStay = false) (hpath : q.isAnyPath = false) (hfits : q.fits name.toList = true)
      (h : Matches rest names) : Matches (q :: rest) (name :: names)
  | here {q r : Pattern} {rest : List Pattern} {names : List String} (hpath : q.isAnyPath = true)
      (hr : r.isStay = false) (h : Matches (r :: rest) names) : Matches (q :: r :: rest) names
  | down {q r : Pattern} {rest : List Pattern} {name : String} {names : List String}
      (hpath : q.isAnyPath = true) (hr : r.isStay = false) (h : Matches (q :: r :: rest) names) :
      Matches (q :: r :: rest) (name :: names)

/-- The ways to go down some names, however far, to one that a component stands for, and on from
there. -/
def waysBelow (r : Pattern) (onwards : List String → Nat) : List String → Nat
  | [] => 0
  | name :: names => (if r.fits name.toList then onwards names else 0) + waysBelow r onwards names

/-- **In how many ways a pattern stands for the names on the way to a file.** -/
def ways : List Pattern → List String → Nat
  | [], names => if names.isEmpty then 1 else 0
  | q :: rest, names =>
    if q.isStay then if names.isEmpty then 0 else ways rest names
    else if q.isAnyPath then
      match rest with
      | [] => 0
      | r :: rest =>
        if r.isAnyPath then ways (r :: rest) names
        else if r.isStay then 0
        else waysBelow r (ways rest) names
    else
      match names with
      | [] => 0
      | name :: names => if q.fits name.toList then ways rest names else 0

theorem waysBelow_nil (r : Pattern) (onwards : List String → Nat) : waysBelow r onwards [] = 0 :=
  rfl

theorem waysBelow_cons (r : Pattern) (onwards : List String → Nat) (name : String)
    (names : List String) :
    waysBelow r onwards (name :: names) =
      (if r.fits name.toList then onwards names else 0) + waysBelow r onwards names :=
  rfl

theorem ways_done (names : List String) : ways [] names = if names.isEmpty then 1 else 0 := rfl

theorem ways_cons (q : Pattern) (rest : List Pattern) (names : List String) :
    ways (q :: rest) names =
      if q.isStay then if names.isEmpty then 0 else ways rest names
      else if q.isAnyPath then
        match rest with
        | [] => 0
        | r :: rest =>
          if r.isAnyPath then ways (r :: rest) names
          else if r.isStay then 0
          else waysBelow r (ways rest) names
      else
        match names with
        | [] => 0
        | name :: names => if q.fits name.toList then ways rest names else 0 := by
  rw [ways.eq_def]

section Ways

variable {q r : Pattern} {rest : List Pattern} {name : String} {names : List String}

theorem ways_stay (hstay : q.isStay = true) (hnames : names ≠ []) :
    ways (q :: rest) names = ways rest names := by
  rw [ways_cons]
  simp only [hstay, if_true, List.isEmpty_iff, hnames, if_false]

theorem ways_name (hstay : q.isStay = false) (hpath : q.isAnyPath = false) :
    ways (q :: rest) (name :: names) = if q.fits name.toList then ways rest names else 0 := by
  rw [ways_cons]
  simp only [hstay, hpath, Bool.false_eq_true, if_false]

theorem ways_anyPath_nil (hpath : q.isAnyPath = true) : ways [q] names = 0 := by
  have hstay : q.isStay = false := Bool.eq_false_iff.mpr fun h => by
    simp [isAnyPath_of_isStay h] at hpath
  rw [ways_cons]
  simp only [hstay, hpath, Bool.false_eq_true, if_false, if_true]

/-- Two stars twice are the same as once. -/
theorem ways_again (hpath : q.isAnyPath = true) (hr : r.isAnyPath = true) :
    ways (q :: r :: rest) names = ways (r :: rest) names := by
  have hstay : q.isStay = false := Bool.eq_false_iff.mpr fun h => by
    simp [isAnyPath_of_isStay h] at hpath
  rw [ways_cons]
  simp only [hstay, hpath, hr, Bool.false_eq_true, if_false, if_true]

theorem ways_below (hpath : q.isAnyPath = true) (hr : r.isAnyPath = false) :
    ways (q :: r :: rest) names = if r.isStay then 0 else waysBelow r (ways rest) names := by
  have hstay : q.isStay = false := Bool.eq_false_iff.mpr fun h => by
    simp [isAnyPath_of_isStay h] at hpath
  rw [ways_cons]
  simp only [hstay, hpath, hr, Bool.false_eq_true, if_false, if_true]

/-- Without a name there is nothing for a component to stand for. -/
theorem ways_nil (q : Pattern) (rest : List Pattern) : ways (q :: rest) [] = 0 := by
  induction rest generalizing q with
  | nil =>
    rw [ways_cons]
    simp only [List.isEmpty_nil, if_true, ite_self]
  | cons r rest ih =>
    rw [ways_cons]
    simp only [List.isEmpty_nil, ih, waysBelow_nil, ite_self]

theorem waysBelow_pos_iff {onwards : List String → Nat} :
    0 < waysBelow r onwards names ↔
      ∃ front name back, names = front ++ name :: back ∧ r.fits name.toList = true ∧
        0 < onwards back := by
  induction names with
  | nil => exact iff_of_false (Nat.lt_irrefl 0) fun ⟨front, name, back, h, _⟩ => absurd h (by simp)
  | cons n names ih =>
    rw [waysBelow_cons, Nat.add_pos_iff_pos_or_pos, ih]
    constructor
    · rintro (hfirst | ⟨front, name, back, rfl, hfits, hpos⟩)
      · split at hfirst
        · rename_i hfits
          exact ⟨[], n, names, rfl, hfits, hfirst⟩
        · exact absurd hfirst (Nat.lt_irrefl 0)
      · exact ⟨n :: front, name, back, rfl, hfits, hpos⟩
    · rintro ⟨front, name, back, hsplit, hfits, hpos⟩
      cases front with
      | nil =>
        obtain ⟨rfl, rfl⟩ := List.cons.inj hsplit
        exact .inl (by rwa [if_pos hfits])
      | cons m front =>
        obtain ⟨rfl, rfl⟩ := List.cons.inj hsplit
        exact .inr ⟨front, name, back, rfl, hfits, hpos⟩

theorem ways_cons_pos (hpath : q.isAnyPath = true) (h : 0 < ways (q :: rest) names) :
    0 < ways (q :: rest) (name :: names) := by
  induction rest generalizing q with
  | nil =>
    rw [ways_anyPath_nil hpath] at h
    exact absurd h (Nat.lt_irrefl 0)
  | cons r rest ih =>
    cases hr : r.isAnyPath with
    | true =>
      rw [ways_again hpath hr] at h ⊢
      exact ih hr h
    | false =>
      rw [ways_below hpath hr] at h ⊢
      split at h
      · exact absurd h (Nat.lt_irrefl 0)
      · rename_i hstay
        rw [if_neg hstay, waysBelow_cons]
        exact Nat.add_pos_right _ h

end Ways

/-- Two stars stand for any directories in front of names that the rest stands for. -/
theorem Matches.behind {q r : Pattern} {rest : List Pattern} (hpath : q.isAnyPath = true)
    (hr : r.isStay = false) {names : List String} (h : Matches (r :: rest) names)
    (front : List String) : Matches (q :: r :: rest) (front ++ names) := by
  induction front with
  | nil => exact .here hpath hr h
  | cons name front ih => exact .down hpath hr ih

theorem matches_cons {q : Pattern} {rest : List Pattern} (hpath : q.isAnyPath = false)
    (hrest : ∀ names, 0 < ways rest names → Matches rest names) {names : List String}
    (h : 0 < ways (q :: rest) names) : Matches (q :: rest) names := by
  cases names with
  | nil =>
    rw [ways_nil] at h
    exact absurd h (Nat.lt_irrefl 0)
  | cons name names =>
    cases hstay : q.isStay with
    | true =>
      rw [ways_stay hstay (List.cons_ne_nil _ _)] at h
      exact .stay hstay (List.cons_ne_nil _ _) (hrest _ h)
    | false =>
      rw [ways_name hstay hpath] at h
      split at h
      · rename_i hfits
        exact .name hstay hpath hfits (hrest _ h)
      · exact absurd h (Nat.lt_irrefl 0)

theorem matches_of_ways :
    ∀ (components : List Pattern) (names : List String), 0 < ways components names →
    Matches components names
  | [], [], _ => .done
  | [], _ :: _, h => absurd h (by simp [ways_done])
  | [q], names, h => by
    cases hpath : q.isAnyPath with
    | false => exact matches_cons hpath (matches_of_ways []) h
    | true =>
      rw [ways_anyPath_nil hpath] at h
      exact absurd h (Nat.lt_irrefl 0)
  | q :: r :: rest, names, h => by
    cases hpath : q.isAnyPath with
    | false => exact matches_cons hpath (matches_of_ways (r :: rest)) h
    | true =>
      -- Only here does a way choose a depth: the names in front of it are passed over by `**`.
      cases hr : r.isAnyPath with
      | true =>
        rw [ways_again hpath hr] at h
        have hr' : r.isStay = false := Bool.eq_false_iff.mpr fun hs => by
          simp [isAnyPath_of_isStay hs] at hr
        exact .here hpath hr' (matches_of_ways (r :: rest) names h)
      | false =>
        rw [ways_below hpath hr] at h
        split at h
        · exact absurd h (Nat.lt_irrefl 0)
        · rename_i hr'
          rw [Bool.not_eq_true] at hr'
          obtain ⟨front, next, back, hsplit, hfits, hpos⟩ := waysBelow_pos_iff.mp h
          rw [hsplit]
          exact (Matches.name hr' hr hfits (matches_of_ways rest back hpos)).behind hpath hr' front

/-- **A pattern stands for names if there is a way.** -/
theorem ways_pos_iff {components : List Pattern} {names : List String} :
    0 < ways components names ↔ Matches components names := by
  refine ⟨matches_of_ways components names, fun h => ?_⟩
  induction h with
  | done => decide
  | stay hstay hnames _ ih => rwa [ways_stay hstay hnames]
  | name hstay hpath hfits _ ih => rwa [ways_name hstay hpath, if_pos hfits]
  | @here q r rest names hpath hr _ ih =>
    cases hr' : r.isAnyPath with
    | true => rwa [ways_again hpath hr']
    | false =>
      cases names with
      | nil =>
        rw [ways_nil] at ih
        exact absurd ih (Nat.lt_irrefl 0)
      | cons name names =>
        rw [ways_below hpath hr', if_neg (by simp [hr]), waysBelow_cons]
        rw [ways_name hr hr'] at ih
        exact Nat.add_pos_left ih _
  | down hpath _ _ ih => exact ways_cons_pos hpath ih

/-! ## One way -/

/-- How many runs of two stars there are, with something behind each but the last. -/
def starRuns : List Pattern → Nat
  | [] => 0
  | [q] => if q.isAnyPath then 1 else 0
  | q :: r :: rest => (if q.isAnyPath && !r.isAnyPath then 1 else 0) + starRuns (r :: rest)

theorem starRuns_cons_of_not {q : Pattern} (hq : q.isAnyPath = false) (rest : List Pattern) :
    starRuns (q :: rest) = starRuns rest := by
  cases rest with
  | nil => simp [starRuns, hq]
  | cons r rest => simp [starRuns, hq]

theorem isAnyPath_of_starRuns {components : List Pattern} (h : starRuns components = 0) :
    ∀ q ∈ components, q.isAnyPath = false := by
  induction components with
  | nil => exact fun q hq => absurd hq List.not_mem_nil
  | cons q rest ih =>
    cases rest with
    | nil => simpa [starRuns] using h
    | cons r rest =>
      rw [starRuns, Nat.add_eq_zero_iff] at h
      have hrest := ih h.2
      have hq : q.isAnyPath = false := by
        simpa [hrest r List.mem_cons_self] using h.1
      exact List.forall_mem_cons.mpr ⟨hq, hrest⟩

/-- Without two stars there is one way at most, and each component with a meaning takes one name. -/
theorem ways_of_plain {components : List Pattern} (hplain : ∀ q ∈ components, q.isAnyPath = false)
    {names : List String} :
    ways components names ≤ 1 ∧
      (0 < ways components names →
        names.length = (components.filter fun q => !q.isStay).length) := by
  -- Without `**` each component takes one name, or none where it is a dot, so the names left over
  -- are counted along.
  induction components generalizing names with
  | nil =>
    cases names with
    | nil => exact ⟨Nat.le_refl 1, fun _ => rfl⟩
    | cons name names => exact ⟨Nat.zero_le 1, fun h => absurd h (by simp [ways_done])⟩
  | cons q rest ih =>
    obtain ⟨hq, hrest⟩ := List.forall_mem_cons.mp hplain
    cases names with
    | nil => rw [ways_nil]; exact ⟨Nat.zero_le 1, fun h => absurd h (Nat.lt_irrefl 0)⟩
    | cons name names =>
      cases hstay : q.isStay with
      | true =>
        rw [ways_stay hstay (List.cons_ne_nil _ _), List.filter_cons_of_neg (by simp [hstay])]
        exact ih hrest
      | false =>
        rw [ways_name hstay hq, List.filter_cons_of_pos (by simp [hstay]), List.length_cons,
          List.length_cons]
        split
        · obtain ⟨hone, hlength⟩ := @ih hrest names
          exact ⟨hone, fun h => congrArg (· + 1) (hlength h)⟩
        · exact ⟨Nat.zero_le 1, fun h => absurd h (Nat.lt_irrefl 0)⟩

/-- If only one number of names is left to go on with, there is one place to leave two stars at. -/
theorem waysBelow_le_one {r : Pattern} {onwards : List String → Nat} {n : Nat}
    (hone : ∀ names, onwards names ≤ 1) (hlength : ∀ names, 0 < onwards names → names.length = n)
    (names : List String) : waysBelow r onwards names ≤ 1 := by
  induction names with
  | nil => exact Nat.zero_le 1
  | cons name names ih =>
    rw [waysBelow_cons]
    by_cases hlater : 0 < waysBelow r onwards names
    · -- What is left there is shorter than what is left here.
      obtain ⟨front, next, back, rfl, -, hpos⟩ := waysBelow_pos_iff.mp hlater
      have hnone : onwards (front ++ next :: back) = 0 := by
        by_contra hne
        have hhere := hlength _ (Nat.pos_of_ne_zero hne)
        rw [← hlength back hpos, List.length_append, List.length_cons] at hhere
        omega
      rw [hnone, ite_self, Nat.zero_add]
      exact ih
    · rw [Nat.eq_zero_of_not_pos hlater, Nat.add_zero]
      split
      · exact hone names
      · exact Nat.zero_le 1

/-- **With one run of two stars there is one way at most.** -/
theorem ways_le_one {components : List Pattern} (h : starRuns components ≤ 1)
    (names : List String) :
    ways components names ≤ 1 := by
  induction components generalizing names with
  | nil =>
    rw [ways]
    split <;> omega
  | cons q rest ih =>
    cases names with
    | nil => rw [ways_nil]; exact Nat.zero_le 1
    | cons name names =>
      cases hpath : q.isAnyPath with
      | false =>
        rw [starRuns_cons_of_not hpath] at h
        cases hstay : q.isStay with
        | true =>
          rw [ways_stay hstay (List.cons_ne_nil _ _)]
          exact ih h _
        | false =>
          rw [ways_name hstay hpath]
          split
          · exact ih h _
          · exact Nat.zero_le 1
      | true =>
        -- A run of `**` in front leaves none behind it: what follows fits at one depth only.
        cases rest with
        | nil => rw [ways_anyPath_nil hpath]; exact Nat.zero_le 1
        | cons r rest =>
          rw [starRuns] at h
          cases hr : r.isAnyPath with
          | true =>
            rw [ways_again hpath hr]
            exact ih (by omega) _
          | false =>
            rw [starRuns_cons_of_not hr, hpath, hr] at h
            have hnone : 1 + starRuns rest ≤ 1 := by simpa using h
            have hplain := isAnyPath_of_starRuns (show starRuns rest = 0 by omega)
            rw [ways_below hpath hr]
            split
            · exact Nat.zero_le 1
            · exact waysBelow_le_one (fun _ => (ways_of_plain hplain).1)
                (fun _ => (ways_of_plain hplain).2) _

end AltRender.Glob

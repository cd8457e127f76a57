import AltRender.Proofs.Glob.Ahead
import AltRender.Proofs.Glob.Spelling
import AltRender.Proofs.Render.Sound

/-!
# `Proofs/Command/Root` — searching behind the root of a vault

The root of a vault is put in front of a pattern before the search, and taken off again from the
paths that were found. A root that stands for itself (`LiteralRoot`) gets in the way of neither. Its
components are followed to where it leads, so that what is searched is what lies behind it, and only
the length of the paths is more (`LiteralRoot.search`). And a file that was found behind it is
described by the names on the way from there, whatever the root is called and however it is spelled
(`describe_found`).

A root with a character that has a meaning in patterns is read as a pattern, and then none of this
holds.
-/

set_option autoImplicit false

namespace AltRender.Command

open AltRender.Disk AltRender.Text AltRender.Glob

variable {d : Disk} {root p : Path} {l m : Location} {pattern last : String} {names : List String}
  {n : Nat}

/-! ## What was found -/

/-- A path to a file ends in a name. -/
theorem isStill_of_isFile (hlast : '/' ∉ last.toList) (h : d.isFile (p.join ⟨last⟩) = true) :
    isStill last = false := by
  rw [Bool.eq_false_iff]
  intro hstill
  rcases isStill_iff.mp hstill with rfl | rfl
  · obtain ⟨bytes, t, hlook⟩ := look_of_isFile h
    obtain ⟨hfind, hitem⟩ := look_ok hlook
    have hne : p.text.toList ≠ [] := by
      intro hnil
      refine (Path.fit_of_find hfind).nonempty ?_
      rw [Path.toList_join_gap p (by decide), Path.gap, if_pos (.inl hnil), hnil]
      rfl
    have hdir := isDirectoryAt_of_endsInSlash hfind (Path.endsInSlash_join_empty hne)
    rw [not_isDirectoryAt_of_file (item?_file_iff.mp hitem)] at hdir
    exact absurd hdir (by simp)
  · exact getLast?_of_isFile h (Path.getLast?_pieces_join p (by decide))

section Found

variable {front : List String} (htrail : Trail p n (front ++ [last])) (hlast : isStill last = false)

include htrail hlast

/-- The spelling of a trail can be put behind the root if there is room. -/
theorem fit_spelling (hfit : root.Fit)
    (hproper : ∀ name ∈ meaning (front ++ [last]), ProperName name)
    (hroom :
      byteLength root.text.toList + 2 * n + span (meaning (front ++ [last])) + 1 < pathLimit) :
    (root.join (named (spelling (front ++ [last])))).Fit := by
  have hrelative := htrail.isAbsolute_spelling hlast
  refine ⟨?_, fun c hc => ?_, ?_⟩
  · rw [Path.toList_join_gap root hrelative]
    exact List.append_ne_nil_of_left_ne_nil hfit.nonempty _
  · rcases Path.mem_join root hrelative hc with hc | rfl | hc
    · exact hfit.noNul c hc
    · decide
    · rcases mem_named hc with rfl | ⟨name, hname, hc⟩
      · decide
      · cases hstill : isStill name with
        | true =>
          have hdot : name = "." :=
            (isStill_iff.mp hstill).resolve_left fun hempty =>
              empty_not_mem_spelling _ (hempty ▸ hname)
          rw [hdot] at hc
          obtain rfl := List.mem_singleton.mp hc
          decide
        | false =>
          exact (hproper name
            (List.mem_filter.mpr ⟨mem_of_mem_spelling hname, by simp [hstill]⟩)).noNul c hc
  · have hjoined := Path.byteLength_join_le root hrelative
    have hlong := byteLength_named (spelling (front ++ [last]))
    have hspan := Nat.le_trans (span_spelling_le (front ++ [last])) (span_le (front ++ [last]))
    have hfew := htrail.few
    omega

/-- The spelling of a trail leads from the root to what was found. -/
theorem look_spelling (hroot : d.isDirectory root = true) (hleads : Leads root p)
    (hfit : (root.join (named (spelling (front ++ [last])))).Fit) {item : Item}
    (hlook : d.look (follow p (front ++ [last])) = .ok item) :
    d.look (root.join (named (spelling (front ++ [last])))) = .ok item := by
  obtain ⟨hfind, hitem⟩ := look_ok hlook
  obtain ⟨-, happroach, hdir⟩ := approach_of_isDirectory hroot
  have hrelative := htrail.isAbsolute_spelling hlast
  have hwalk : d.approach (root.join (named (spelling (front ++ [last])))) =
      .ok ((follow p (front ++ [last])).destination d.start) := by
    rw [approach_join happroach hrelative, htrail.steps_spelling hlast,
      ← hleads.approach_follow htrail hlast happroach hdir]
    exact approach_of_find hfind
  have hne : last.toList ≠ [] :=
    fun hnil => absurd hlast (by simp [isStill, hnil, Path.isRedundant])
  have hends := Path.not_endsInSlash
    ((Path.getLast?_pieces_join root hrelative).trans (htrail.getLast?_spelling hlast)) hne
  exact look_of_find (find_of_approach hfit hwalk fun habs => absurd habs hends) hitem

end Found

theorem describe_of_look {q : Path} {item : Item} (h : d.look (root.join q) = .ok item) :
    ∃ s, s.identity = q.text ∧ Vault.describe root d q = .ok s := by
  refine ⟨Source.atPath q item.changed, rfl, ?_⟩
  rw [Vault.describe, h]
  rfl

/-- **What is found behind a root is described as the file that was found:** with the root taken
off, it is named by the names on the way. -/
theorem describe_found (hproper : d.IsProper) (hroot : d.isDirectory root = true)
    (hleads : Leads root p) (htrail : Trail p n names) (hfile : d.isFile (follow p names) = true)
    (hroom : byteLength root.text.toList + 2 * n + span (meaning names) + 1 < pathLimit) :
    ∃ s, Vault.describe root d (((follow p names).stripLeading? root).getD (follow p names)) =
      .ok s ∧
      Vault.describe root d ⟨s.identity⟩ = .ok s ∧ ¬ Vault.LeadsOut s.identity ∧
        Vault.segments s.identity = meaning names := by
  obtain ⟨hfit, -, hdir⟩ := approach_of_isDirectory hroot
  obtain ⟨bytes, t, hlook⟩ := look_of_isFile hfile
  have hseen := item?_file_iff.mp (look_ok hlook).2
  rw [htrail.destination hleads.shown, hleads.destination] at hseen
  -- The root is a directory, so there is a name behind it.
  have hnames : names ≠ [] := by
    rintro rfl
    rw [show meaning [] = [] from rfl, List.append_nil] at hseen
    rw [not_isDirectoryAt_of_file hseen] at hdir
    exact absurd hdir (by simp)
  obtain ⟨front, last, rfl⟩ := (List.eq_nil_or_concat' names).resolve_left hnames
  have hlast : isStill last = false := by
    rw [follow_append] at hfile
    exact isStill_of_isFile (htrail.noSlash last (List.mem_append_right _ List.mem_cons_self)) hfile
  have hsome : (d.seen (root.destination d.start ++ meaning (front ++ [last]))).isSome = true := by
    rw [hseen]
    rfl
  have hfit' := fit_spelling htrail hlast hfit
    (fun name hname => hproper.named _ hsome name (List.mem_append_right _ hname)) hroom
  obtain ⟨s, hidentity, hdescribe⟩ :=
    describe_of_look (look_spelling htrail hlast hroot hleads hfit' hlook)
  refine ⟨s, by rw [hleads.strip_follow htrail hlast]; exact hdescribe, ?_, ?_, ?_⟩
  · rw [hidentity]
    exact hdescribe
  · rw [hidentity]
    exact htrail.not_leadsOut hlast
  · rw [hidentity]
    exact htrail.segments_spelling hlast

/-! ## The root -/

/-- **Components that stand for themselves are followed,** if each of them is there and the last one
is a directory. -/
theorem expand_follow {texts : List (List Char)} (hp : Shown p) (hfind : d.find p = .ok l)
    (hwalk : d.walk l (texts.filter fun piece => !piece.isEmpty) = .ok m)
    (hm : d.isDirectoryAt m = true) (hslash : ∀ text ∈ texts, '/' ∉ text)
    (hnul : ∀ text ∈ texts, ∀ c ∈ text, c.toNat ≠ 0)
    (hopens : p = ⟨"."⟩ → (texts.dropWhile (· == ['.'])).head? ≠ some [])
    (hroom : byteLength p.text.toList + span (texts.map String.ofList) < pathLimit)
    (rest : List Pattern) :
    expand d (texts.map literal ++ rest) p = expand d rest (follow p (texts.map String.ofList)) ∧
      d.find (follow p (texts.map String.ofList)) = .ok m ∧
      byteLength (follow p (texts.map String.ofList)).text.toList ≤
        byteLength p.text.toList + span (texts.map String.ofList) := by
  induction texts generalizing p l with
  | nil =>
    obtain rfl : l = m := Except.ok.inj hwalk
    exact ⟨rfl, hfind, Nat.le_refl _⟩
  | cons text texts ih =>
    obtain ⟨hslash', hothers⟩ := List.forall_mem_cons.mp hslash
    obtain ⟨hnul', hnulOthers⟩ := List.forall_mem_cons.mp hnul
    obtain ⟨name, rfl⟩ : ∃ name : String, name.toList = text :=
      ⟨String.ofList text, String.toList_ofList⟩
    have hdir := isDirectoryAt_of_walk hwalk hm
    obtain ⟨k, hleads, hwalk⟩ : ∃ k, LeadsTo d l name k ∧
      d.walk k (texts.filter fun piece => !piece.isEmpty) = .ok m := by
      by_cases hempty : name = ""
      · subst hempty
        exact ⟨l, .stay hdir (by decide), hwalk⟩
      · have hne : name.toList ≠ [] := fun hnil => hempty (String.toList_eq_nil_iff.mp hnil)
        rw [List.filter_cons_of_pos (by simpa using hne)] at hwalk
        obtain ⟨k, hstep, hrest⟩ := walk_cons hwalk
        refine ⟨k, ⟨hslash', hnul', hdir, ?_⟩, hrest⟩
        rw [steps_of_ne hslash' hempty, walk, List.foldlM_cons, hstep]
        rfl
    have hopens' : p = ⟨"."⟩ → name ≠ "" := by
      rintro hp rfl
      exact hopens hp rfl
    have hnames : (name.toList :: texts).map String.ofList = name :: texts.map String.ofList := by
      rw [List.map_cons, String.ofList_toList]
    rw [hnames, span_cons] at hroom ⊢
    have hlong := byteLength_next p hslash'
    have hnext := hleads.find_next hp hfind hopens' (by omega)
    rw [List.map_cons, List.cons_append, expand_cons_literal, String.ofList_toList,
      hleads.literalPath? hp hfind hopens' (by omega)]
    have hopensNext : next p name = ⟨"."⟩ → (texts.dropWhile (· == ['.'])).head? ≠ some [] := by
      intro hstart
      -- The search is still where it starts only behind a dot.
      obtain rfl : p = ⟨"."⟩ := hp.resolve_left fun hfirm => (hfirm.next hslash').ne_start hstart
      rw [next_start hslash'] at hstart
      obtain rfl : name = "." := congrArg Path.text hstart
      exact hopens rfl
    obtain ⟨hexpand, hfound, hlength⟩ :=
      ih (hp.next hslash' hopens') hnext hwalk hothers hnulOthers hopensNext (by omega)
    exact ⟨hexpand, hfound, by rw [follow_cons]; omega⟩

theorem span_cut (cs : List Char) : span ((cut '/' cs).map String.ofList) = byteLength cs + 1 := by
  induction cs with
  | nil => rfl
  | cons c cs ih =>
    rw [cut, byteLength_cons]
    split
    · rename_i hslash
      subst hslash
      rw [List.map_cons, span_cons, ih, String.toList_ofList]
      have hone : '/'.utf8Size = 1 := by decide
      rw [byteLength_nil]
      omega
    · cases hcut : cut '/' cs with
      | nil => exact absurd hcut (cut_ne_nil _ _)
      | cons first rest =>
        rw [hcut, List.map_cons, span_cons, String.toList_ofList] at ih
        rw [List.map_cons, span_cons, String.toList_ofList, byteLength_cons]
        omega

/-- A root that stands for itself: it is a directory, no character of it has a meaning in a pattern,
and it does not begin with a dot and go on behind it. -/
structure LiteralRoot (d : Disk) (root : Path) : Prop where
  directory : d.isDirectory root = true
  literal : ∀ c ∈ root.text.toList, isLiteral c = true
  spelled : Rests root ∨ root.components.head? ≠ some .here

namespace LiteralRoot

variable (h : LiteralRoot d root)

include h

theorem fit : root.Fit :=
  (approach_of_isDirectory h.directory).1

theorem isDirectoryAt : d.isDirectoryAt (root.destination d.start) = true :=
  (approach_of_isDirectory h.directory).2.2

theorem walk :
    d.walk (if root.isAbsolute then [] else d.start) root.steps = .ok (root.destination d.start) :=
  (approach_of_isDirectory h.directory).2.1

/-- A search for the root starts where the root does. -/
theorem find_scopeOf :
    Shown (scopeOf root) ∧
    d.find (scopeOf root) = .ok (if root.isAbsolute then [] else d.start) := by
  have hstart := isDirectoryAt_of_walk h.walk h.isDirectoryAt
  cases habsolute : root.isAbsolute with
  | true =>
    have hfit : (⟨"/"⟩ : Path).Fit :=
      ⟨by decide, List.forall_mem_singleton.mpr (by decide), by decide⟩
    rw [scopeOf, if_pos habsolute, if_pos rfl]
    exact ⟨.inl ⟨by decide, by decide⟩, find_of_approach hfit rfl fun _ => rfl⟩
  | false =>
    rw [habsolute, if_neg Bool.false_ne_true] at hstart
    have hfit : (⟨"."⟩ : Path).Fit :=
      ⟨by decide, List.forall_mem_singleton.mpr (by decide), by decide⟩
    rw [scopeOf, if_neg (by simp [habsolute]), if_neg Bool.false_ne_true]
    exact ⟨.inr rfl,
      find_of_approach hfit (walk_here hstart (List.forall_mem_singleton.mpr rfl)) fun _ => hstart⟩

/-- The pieces of the root do not begin with dots and an empty one behind them, if its search starts
where searches start. -/
theorem head?_body {first : List Char} {front rest : List (List Char)}
    (hcomponents : root.components = leadOf first rest ++ front.filterMap Path.component?)
    (habs : root.isAbsolute = true ↔ first = []) (htrunk : root.trunk = first :: front)
    (hscope : scopeOf root = ⟨"."⟩) :
    ((if root.isAbsolute then front else first :: front).dropWhile (· == ['.'])).head? ≠
      some [] := by
  have habsolute : root.isAbsolute = false := by
    rw [Bool.eq_false_iff]
    intro habsolute
    rw [scopeOf, if_pos habsolute] at hscope
    exact absurd hscope (by decide)
  have hfirst : first ≠ [] := fun hnil => by simp [habs.mpr hnil] at habsolute
  rw [habsolute, if_neg Bool.false_ne_true]
  by_cases hhere : first = ['.']
  · -- The root is dots, and none of them is behind an empty piece.
    have hroot : Rests root :=
      h.spelled.resolve_right fun hhead => hhead (by rw [hcomponents, hhere]; rfl)
    refine fun hnil => hroot.2 ?_
    rw [htrunk]
    exact (List.dropWhile_sublist _).subset (List.mem_of_head? hnil)
  · rw [List.dropWhile_cons_of_neg (by simpa using hhere)]
    exact fun hnil => hfirst (Option.some.inj hnil)

omit h in
/-- The way to the root from where its search starts is not much longer than the root. -/
theorem span_body {first : List Char} {front : List (List Char)}
    (htrunk : root.trunk = first :: front) :
    byteLength (scopeOf root).text.toList +
      span ((if root.isAbsolute then front else first :: front).map String.ofList) ≤
        byteLength root.text.toList + 2 := by
  have hpieces : (first :: front).Sublist root.pieces := htrunk ▸ root.trunk_sublist
  have hlong := span_sublist (hpieces.map String.ofList)
  rw [Path.pieces, span_cut] at hlong
  have hone : byteLength (scopeOf root).text.toList = 1 := by
    unfold scopeOf
    split <;> decide
  rw [hone]
  split
  · rw [List.map_cons, span_cons] at hlong
    omega
  · omega

/-- **A search behind the root goes through the root first,** and goes on with the pattern from
where the root leads. -/
theorem search {search : Search} (hne : pattern.toList ≠ [])
    (hrelative : pattern.toList.head? ≠ some '/') (hsearch : Search.ofText pattern = .ok search) :
    ∃ (texts : List (List Char)) (p : Path), Search.ofText (root.join ⟨pattern⟩).text =
        .ok ⟨scopeOf root, texts.map Glob.literal ++ search.components, search.directoriesOnly⟩ ∧
      Leads root p ∧ p = follow (scopeOf root) (texts.map String.ofList) ∧
      (byteLength root.text.toList + 2 < pathLimit →
        expand d (texts.map Glob.literal ++ search.components) (scopeOf root) =
          expand d search.components p ∧
          d.find p = .ok (root.destination d.start) ∧
          byteLength p.text.toList ≤ byteLength root.text.toList + 2) := by
  obtain ⟨first, front, hcomponents, habs, hsteps, htrunk, hread⟩ :=
    ofText_join h.literal h.fit.nonempty hne hrelative hsearch
  refine ⟨_, _, hread, leads_follow (cut_ne_nil _ _) hcomponents habs hsteps htrunk h.spelled, rfl,
    fun hroom => ?_⟩
  obtain ⟨hshown, hfind⟩ := h.find_scopeOf
  have hpieces : (first :: front).Sublist root.pieces := htrunk ▸ root.trunk_sublist
  have hsub : ∀ text ∈ if root.isAbsolute then front else first :: front, text ∈ root.pieces := by
    intro text htext
    refine hpieces.subset ?_
    split at htext
    · exact List.mem_cons_of_mem _ htext
    · exact htext
  -- The empty pieces add nothing on the way, so the names followed are the steps of the root.
  have hkept : (if root.isAbsolute then front else first :: front).filter
    (fun piece => !piece.isEmpty) = root.steps := by
    rw [← hsteps]
    split
    · rename_i habsolute
      rw [habs.mp habsolute]
      rfl
    · rfl
  have hspan := span_body htrunk
  obtain ⟨hexpand, hfound, hlength⟩ := expand_follow hshown hfind (hkept ▸ h.walk) h.isDirectoryAt
    (fun text htext => not_mem_of_mem_cut (hsub text htext))
    (fun text htext c hc => h.fit.noNul c (mem_of_mem_piece (hsub text htext) hc))
      (h.head?_body hcomponents habs htrunk)
    (by omega) search.components
  exact ⟨hexpand, hfound, hlength.trans hspan⟩

end LiteralRoot

end AltRender.Command

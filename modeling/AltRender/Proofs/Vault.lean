import AltRender.Proofs.Disk.Waypoint
import AltRender.Vault.Access

/-!
# `Proofs/Vault` — reading does not leave the vault

The test that an identity has to pass looks at components, and the path that is read is made of
texts. Both take an identity alike, whatever is doubled or redundant in it: it fails the test if it
is absolute or one of its segments is `..` (`isConfined_iff`), and otherwise what it adds to the
root are its segments, the empty ones and the dots left out, and perhaps a dot in front
(`Path.components_join_relative`). None of these goes up, so every part of the path from the root on
lies below the root.

What is read is recorded on the way, so the statement is about what was asked and not only about
what came out: one file at most, and that one below the root; and for an identity that leads out
nothing at all.
-/

set_option autoImplicit false

namespace AltRender.Vault

open AltRender.Disk AltRender.Text

/-- Whether an identity is absolute or goes up somewhere. -/
def LeadsOut (identity : String) : Prop :=
  identity.toList.head? = some '/' ∨ ['.', '.'] ∈ cut '/' identity.toList

/-- The segments of an identity that are names. -/
def segments (identity : String) : List String :=
  ((cut '/' identity.toList).filter fun piece => !Path.isRedundant piece).map String.ofList

def name? : Component → Option String
  | .name s => some s
  | _ => none

/-- The names among the components of a path. -/
def names (p : Path) : List String :=
  p.components.filterMap name?

/-- A path reaches below a root by some names: it has them behind those of the root, and each of its
parts that has the root in it leads from the root down by the first of them. -/
structure ReachesBelow (root : Path) (down : List String) (p : Path) : Prop where
  names : names p = names root ++ down
  starts : root.components <+: p.components
  stays : ∀ start : Location, ∀ part : List Component, root.components <+: part →
    part <+: p.components →
    ∃ first, first <+: down ∧ part.foldl onward start = root.destination start ++ first

/-! ## Segments -/

theorem filterMap_component? {pieces : List (List Char)} (h : ['.', '.'] ∉ pieces) :
    pieces.filterMap Path.component? =
      ((pieces.filter fun piece => !Path.isRedundant piece).map String.ofList).map
        Component.name := by
  induction pieces with
  | nil => rfl
  | cons piece rest ih =>
    obtain ⟨hup, hrest⟩ := not_or.mp (mt List.mem_cons.mpr h)
    rw [List.filterMap_cons, List.filter_cons]
    cases hredundant : Path.isRedundant piece with
    | true => simp [Path.component?, hredundant, ih hrest]
    | false => simp [Path.component?, hredundant, Ne.symm hup, ih hrest]

/-- **The test by components is the test by segments.** -/
theorem isConfined_iff (identity : String) :
    isConfined ⟨identity⟩ = true ↔ ¬ LeadsOut identity := by
  rw [isConfined, List.all_eq_true, LeadsOut, not_or]
  cases habsolute : (⟨identity⟩ : Path).isAbsolute with
  | true =>
    have hhead : identity.toList.head? = some '/' := by simpa [Path.isAbsolute] using habsolute
    obtain ⟨first, rest, hp⟩ := (⟨identity⟩ : Path).pieces_eq_cons
    have hroot : Component.root ∈ (⟨identity⟩ : Path).components := by
      simp [Path.components, hp, habsolute]
    exact iff_of_false (fun h => absurd (h _ hroot) (by decide)) fun h => h.1 hhead
  | false =>
    have hhead : identity.toList.head? ≠ some '/' := by simpa [Path.isAbsolute] using habsolute
    obtain ⟨lead, hlead, hcomponents⟩ := Path.components_relative habsolute
    rw [hcomponents]
    -- A relative path has components from its pieces alone, but for the dot it may begin with, and
    -- of those only the two dots are not inner.
    refine ⟨fun h => ⟨hhead, fun hup => ?_⟩, fun h => ?_⟩
    · have hmem : Component.up ∈ (⟨identity⟩ : Path).pieces.filterMap Path.component? :=
        List.mem_filterMap.mpr ⟨_, hup, rfl⟩
      exact absurd (h _ (List.mem_append_right _ hmem)) (by decide)
    · obtain ⟨-, hup⟩ := h
      rw [show (⟨identity⟩ : Path).pieces = cut '/' identity.toList from rfl,
        filterMap_component? hup]
      refine List.forall_mem_append.mpr ⟨?_, ?_⟩
      · rcases hlead with rfl | rfl <;> simp [isInner]
      · intro c hc
        obtain ⟨name, -, rfl⟩ := List.mem_map.mp hc
        rfl

/-! ## Below the root -/

theorem foldl_onward_names (down : List String) (l : Location) :
    (down.map Component.name).foldl onward l = l ++ down := by
  induction down generalizing l with
  | nil => rw [List.map_nil, List.foldl_nil, List.append_nil]
  | cons s down ih =>
    rw [List.map_cons, List.foldl_cons, onward, ih, List.append_assoc, List.singleton_append]

theorem filterMap_name?_map (down : List String) :
    (down.map Component.name).filterMap name? = down := by
  rw [List.filterMap_map]
  exact List.filterMap_some

/-- **What is confined reaches below every root.** -/
theorem reachesBelow_join {identity : String} (h : ¬ LeadsOut identity) (root : Path) :
    ReachesBelow root (segments identity) (root.join ⟨identity⟩) := by
  obtain ⟨hhead, hup⟩ := not_or.mp h
  have habsolute : (⟨identity⟩ : Path).isAbsolute = false := by simpa [Path.isAbsolute] using hhead
  obtain ⟨lead, hlead, hcomponents⟩ := root.components_join_relative habsolute
  rw [show (⟨identity⟩ : Path).pieces = cut '/' identity.toList from rfl, filterMap_component? hup]
    at hcomponents
  refine ⟨?_, by rw [hcomponents]; exact List.prefix_append _ _, ?_⟩
  · rw [names, hcomponents, List.filterMap_append, List.filterMap_append, filterMap_name?_map]
    rcases hlead with rfl | rfl <;> rfl
  · rintro start part ⟨inner, rfl⟩ hpart
    rw [hcomponents, List.prefix_append_right_inj] at hpart
    rw [List.foldl_append]
    -- The dot in front leads nowhere, and what follows are names.
    rcases hlead with rfl | rfl
    · obtain ⟨first, hfirst, rfl⟩ := List.prefix_map_iff.mp hpart
      exact ⟨first, hfirst, foldl_onward_names first _⟩
    · cases inner with
      | nil => exact ⟨[], List.nil_prefix, by rw [List.append_nil]; rfl⟩
      | cons c inner =>
        obtain ⟨rfl, hinner⟩ := List.cons_prefix_cons.mp hpart
        obtain ⟨first, hfirst, rfl⟩ := List.prefix_map_iff.mp hinner
        exact ⟨first, hfirst, foldl_onward_names first _⟩

/-! ## Reading -/

section Local

variable {s : Source}

theorem fetchRecorded_of_leadsOut (hlocal : s.isRemote = false) (root : Path) (d : Disk)
    (network : String → Except ReadFault (List UInt8)) (h : LeadsOut s.identity) :
    fetchRecorded root d network s = (.error (.outsideVault s.identity), []) := by
  rw [fetchRecorded, fetch, hlocal, if_neg Bool.false_ne_true,
    if_neg fun hconfined => (isConfined_iff _).mp hconfined h]
  rfl

theorem fetchRecorded_of_not_leadsOut (hlocal : s.isRemote = false) (root : Path) (d : Disk)
    (network : String → Except ReadFault (List UInt8)) (h : ¬ LeadsOut s.identity) :
    fetchRecorded root d network s =
      ((d.read (root.join ⟨s.identity⟩)).mapError (.io (root.join ⟨s.identity⟩)),
        [.file (root.join ⟨s.identity⟩)]) := by
  rw [fetchRecorded, fetch, hlocal, if_neg Bool.false_ne_true, if_pos ((isConfined_iff _).mpr h)]
  rfl

/-- **A source that is not remote is read below the root or not at all.** Just those identities are
refused that are absolute or go up, and for them nothing is asked for; for the others the path below
the root is, and nothing else. -/
theorem fetch_confined (hlocal : s.isRemote = false) (root : Path) (d : Disk)
    (network : String → Except ReadFault (List UInt8)) :
    (fetchRecorded root d network s).1 = read root d s.identity ∧
      (read root d s.identity = .error (.outsideVault s.identity) ↔ LeadsOut s.identity) ∧
      (LeadsOut s.identity →
        fetchRecorded root d network s = (.error (.outsideVault s.identity), [])) ∧
      (¬ LeadsOut s.identity →
        fetchRecorded root d network s =
            ((d.read (root.join ⟨s.identity⟩)).mapError (.io (root.join ⟨s.identity⟩)),
              [.file (root.join ⟨s.identity⟩)]) ∧
          ReachesBelow root (segments s.identity) (root.join ⟨s.identity⟩)) := by
  have hread : (fetchRecorded root d network s).1 = read root d s.identity := by
    rw [fetchRecorded, fetch, hlocal, if_neg Bool.false_ne_true, read]
    split <;> rfl
  have hout := fetchRecorded_of_leadsOut hlocal root d network
  have hin := fetchRecorded_of_not_leadsOut hlocal root d network
  refine ⟨hread, ⟨fun h => ?_, fun h => ?_⟩, hout, fun h => ⟨hin h, reachesBelow_join h root⟩⟩
  · by_contra hconfined
    rw [← hread, hin hconfined] at h
    -- What the disk refuses is another fault.
    cases hfile : d.read (root.join ⟨s.identity⟩) <;> rw [hfile] at h
      <;> exact absurd h (by simp [Except.mapError])
  · rw [← hread, hout h]

end Local

/-- A name with dots in it, doubled slashes and dots that mean nothing, and an identity that goes
up. -/
theorem fetch_confined_dotted :
    let dotted : Source := ⟨"img//..a/./b..png/", "", "", 1⟩
    let upward : Source := ⟨"img/../../secret.png", "", "", 1⟩
    names ((⟨"/vault"⟩ : Path).join ⟨dotted.identity⟩) = ["vault", "img", "..a", "b..png"] ∧
      ∀ d network, fetchRecorded ⟨"/vault"⟩ d network upward =
        (.error (.outsideVault "img/../../secret.png"), []) := by
  intro dotted upward
  have hin : ¬ LeadsOut dotted.identity := by
    unfold LeadsOut
    decide
  have hout : LeadsOut upward.identity := by
    unfold LeadsOut
    decide
  refine ⟨?_, fun d network => ?_⟩
  · obtain ⟨-, -, -, hread⟩ :=
      fetch_confined (s := dotted) (by decide) ⟨"/vault"⟩ .empty fun url => .error (.network url "")
    rw [(hread hin).2.names]
    decide
  · obtain ⟨-, -, hrefused, -⟩ := fetch_confined (s := upward) (by decide) ⟨"/vault"⟩ d network
    exact hrefused hout

end AltRender.Vault

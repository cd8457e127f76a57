import AltRender.Keyed
import Mathlib.Data.List.Induction

/-!
# `Proofs/Keyed` — what values under keys are gathered from

Values that are put under their keys one after the other are known by two things: their keys are the
keys that were used, in the order of first use, and under each is the value that came last. Nothing
else can be said of them (`gathers_iff`).

This is how parameters and the entries of files come out of a list in which keys may be repeated.
The order of first use and the last value are fixed by the list (`gathers_ofList`), and two keyed
lists with the same keys in the same order and the same values under them are equal
(`Keyed.ext_get?`), so that the description can stand for the computation wherever a list of
arguments is specified without its reader.
-/

set_option autoImplicit false

namespace AltRender.Keyed

variable {κ α : Type} [DecidableEq κ]

/-! ## Equal keys and equal values -/

theorem eq_of_lookup {es es' : List (κ × α)} (hkeys : es.map Prod.fst = es'.map Prod.fst)
    (hd : (es.map Prod.fst).Nodup) (h : ∀ k, lookup k es = lookup k es') : es = es' := by
  induction es generalizing es' with
  | nil => exact (List.map_eq_nil_iff.mp hkeys.symm).symm
  | cons e es ih =>
    cases es' with
    | nil => exact absurd hkeys (by simp)
    | cons e' es' =>
      obtain ⟨k, v⟩ := e
      obtain ⟨k', v'⟩ := e'
      obtain ⟨hk, hrest⟩ := List.cons.inj hkeys
      obtain rfl : k = k' := hk
      obtain ⟨hfresh, hd'⟩ := List.nodup_cons.mp hd
      have hv : v = v' := by
        have hhere := h k
        simpa only [lookup, if_true, Option.some.injEq] using hhere
      rw [hv, ih hrest hd' fun j => ?_]
      by_cases hj : k = j
      · subst hj
        rw [lookup_eq_none_of_not_mem hfresh, lookup_eq_none_of_not_mem (hrest ▸ hfresh)]
      · have hthere := h j
        simpa only [lookup, hj, if_false] using hthere

/-- **Keys in their order and the values under them are all there is.** -/
theorem ext_get? {m m' : Keyed κ α} (hkeys : m.keys = m'.keys) (h : ∀ k, m.get? k = m'.get? k) :
    m = m' := by
  obtain ⟨es, hd⟩ := m
  obtain ⟨es', hd'⟩ := m'
  have hentries : es = es' := eq_of_lookup hkeys hd h
  subst hentries
  rfl

/-! ## Entries that are gathered -/

/-- **What becomes of entries that are put under their keys:** the keys in the order of first use,
each with the value of its last one. -/
structure Gathers (m : Keyed κ α) (es : List (κ × α)) : Prop where
  keys : m.keys = (es.map Prod.fst).eraseDups
  values : ∀ k, m.get? k = lookup k es.reverse

theorem ofList_concat (es : List (κ × α)) (e : κ × α) :
    ofList (es ++ [e]) = (ofList es).insert e.1 e.2 := by
  rw [ofList, List.foldl_append]
  rfl

theorem removeAll_singleton (k : κ) (ks : List κ) :
    [k].removeAll ks = if k ∈ ks then [] else [k] := by
  by_cases hk : k ∈ ks
  · rw [if_pos hk, List.removeAll, List.filter_cons_of_neg (by simpa using hk), List.filter_nil]
  · rw [if_neg hk, List.removeAll, List.filter_cons_of_pos (by simpa using hk), List.filter_nil]

theorem gathers_ofList (es : List (κ × α)) : (ofList es).Gathers es := by
  induction es using List.reverseRecOn with
  | nil => exact ⟨rfl, fun _ => rfl⟩
  | append_singleton es e ih =>
    obtain ⟨k, v⟩ := e
    rw [ofList_concat]
    refine ⟨?_, fun j => ?_⟩
    · have hmem : k ∈ (ofList es).keys ↔ k ∈ es.map Prod.fst := by rw [ih.keys, List.mem_eraseDups]
      rw [List.map_append, List.map_singleton, List.eraseDups_append, removeAll_singleton,
        ← ih.keys]
      by_cases hk : k ∈ es.map Prod.fst
      · rw [keys_insert_of_mem (hmem.mpr hk), if_pos hk]
        exact (List.append_nil _).symm
      · rw [keys_insert_of_not_mem (mt hmem.mp hk), if_neg hk]
        rfl
    · rw [get?_insert, ih.values, List.reverse_concat]
      rfl

/-- **Values under keys are gathered from a list in one way only.** -/
theorem gathers_iff {m : Keyed κ α} {es : List (κ × α)} : m.Gathers es ↔ ofList es = m := by
  constructor
  · intro h
    have hlist := gathers_ofList es
    exact ext_get? (hlist.keys.trans h.keys.symm) fun k => (hlist.values k).trans (h.values k).symm
  · rintro rfl
    exact gathers_ofList es

end AltRender.Keyed

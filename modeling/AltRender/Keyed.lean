/-!
# `Keyed` — values under distinct keys, in the order they came

Parameters of a directive, filters of a registry and files of a disk are all the same thing: values
under keys, where the first use of a key fixes its place and the last one its value. The order shows
in everything that is printed, so it belongs to the type; that no key occurs twice belongs to it as
well, as a proof that every operation carries along.

Main facts: the three `get?` equations (`get?_insert`, `get?_erase`, `get?_retain`) and what happens
to the keys (`keys_insert_of_mem`, `keys_insert_of_not_mem`).
-/

set_option autoImplicit false

namespace AltRender

/-- Values of type `α` under distinct keys of type `κ`, oldest key first. -/
structure Keyed (κ α : Type) where
  entries : List (κ × α)
  distinct : (entries.map Prod.fst).Nodup

namespace Keyed

variable {κ α : Type}

/-! ## On plain lists of entries -/

section Entries

variable [DecidableEq κ]

/-- The value of the first entry with the key. -/
def lookup (k : κ) : List (κ × α) → Option α
  | [] => none
  | (k', v) :: rest => if k' = k then some v else lookup k rest

/-- The entries with the key's value replaced where it stands, or added at the end. -/
def put (k : κ) (v : α) : List (κ × α) → List (κ × α)
  | [] => [(k, v)]
  | (k', v') :: rest => if k' = k then (k, v) :: rest else (k', v') :: put k v rest

theorem map_fst_put_of_mem {k : κ} {v : α} {es : List (κ × α)} (h : k ∈ es.map Prod.fst) :
    (put k v es).map Prod.fst = es.map Prod.fst := by
  induction es with
  | nil => simp at h
  | cons e rest ih =>
    obtain ⟨k', v'⟩ := e
    by_cases hk : k' = k
    · simp [put, hk]
    · have : k ∈ rest.map Prod.fst := by
        simp only [List.map_cons, List.mem_cons] at h
        rcases h with h | h
        · exact absurd h.symm hk
        · exact h
      simp [put, hk, ih this]

theorem map_fst_put_of_not_mem {k : κ} {v : α} {es : List (κ × α)} (h : k ∉ es.map Prod.fst) :
    (put k v es).map Prod.fst = es.map Prod.fst ++ [k] := by
  induction es with
  | nil => simp [put]
  | cons e rest ih =>
    obtain ⟨k', v'⟩ := e
    simp only [List.map_cons, List.mem_cons, not_or] at h
    simp [put, Ne.symm h.1, ih h.2]

theorem nodup_put {k : κ} {v : α} {es : List (κ × α)} (h : (es.map Prod.fst).Nodup) :
    ((put k v es).map Prod.fst).Nodup := by
  by_cases hk : k ∈ es.map Prod.fst
  · rw [map_fst_put_of_mem hk]
    exact h
  · rw [map_fst_put_of_not_mem hk]
    exact List.nodup_append.mpr ⟨h, by simp, by
      intro a ha b hb hab
      simp only [List.mem_singleton] at hb
      exact hk (hb ▸ hab ▸ ha)⟩

theorem lookup_put (k j : κ) (v : α) (es : List (κ × α)) :
    lookup j (put k v es) = if k = j then some v else lookup j es := by
  induction es with
  | nil => simp [put, lookup]
  | cons e rest ih =>
    obtain ⟨k', v'⟩ := e
    by_cases hk : k' = k
    · subst hk
      by_cases hj : k' = j <;> simp [put, lookup, hj]
    · by_cases hj : k' = j
      · subst hj
        simp [put, hk, lookup, Ne.symm hk]
      · simp [put, hk, lookup, hj, ih]

theorem lookup_eq_none_of_not_mem {k : κ} {es : List (κ × α)} (h : k ∉ es.map Prod.fst) :
    lookup k es = none := by
  induction es with
  | nil => rfl
  | cons e rest ih =>
    simp only [List.map_cons, List.mem_cons, not_or] at h
    simp [lookup, Ne.symm h.1, ih h.2]

theorem mem_of_lookup {k : κ} {v : α} {es : List (κ × α)} (h : lookup k es = some v) :
    (k, v) ∈ es := by
  induction es with
  | nil => exact absurd h (by simp [lookup])
  | cons e rest ih =>
    obtain ⟨k', v'⟩ := e
    by_cases hk : k' = k
    · subst hk
      simp only [lookup, if_true, Option.some.injEq] at h
      rw [h]
      exact List.mem_cons_self
    · rw [lookup, if_neg hk] at h
      exact List.mem_cons_of_mem _ (ih h)

theorem lookup_filter {es : List (κ × α)} (h : (es.map Prod.fst).Nodup) (p : κ × α → Bool) (k : κ) :
    lookup k (es.filter p) = (lookup k es).filter (fun v => p (k, v)) := by
  induction es with
  | nil => rfl
  | cons e rest ih =>
    obtain ⟨k', v'⟩ := e
    simp only [List.map_cons, List.nodup_cons] at h
    by_cases hk : k' = k
    · subst hk
      have hn : lookup k' (rest.filter p) = none := by
        rw [ih h.2, lookup_eq_none_of_not_mem h.1]
        rfl
      cases hp : p (k', v') <;> simp [List.filter, hp, lookup, hn, Option.filter]
    · cases hp : p (k', v') <;> simp [List.filter, hp, lookup, hk, ih h.2]

end Entries

/-! ## The operations -/

def empty : Keyed κ α := ⟨[], List.nodup_nil⟩

instance : Inhabited (Keyed κ α) := ⟨empty⟩

instance : EmptyCollection (Keyed κ α) := ⟨empty⟩

def keys (m : Keyed κ α) : List κ :=
  m.entries.map Prod.fst

def size (m : Keyed κ α) : Nat :=
  m.entries.length

def retain (m : Keyed κ α) (p : κ × α → Bool) : Keyed κ α :=
  ⟨m.entries.filter p, m.distinct.sublist (List.filter_sublist.map Prod.fst)⟩

variable [DecidableEq κ]

def get? (m : Keyed κ α) (k : κ) : Option α :=
  lookup k m.entries

def contains (m : Keyed κ α) (k : κ) : Bool :=
  (m.get? k).isSome

/-- The value under the key is replaced where it stands; a new key goes to the end. -/
def insert (m : Keyed κ α) (k : κ) (v : α) : Keyed κ α :=
  ⟨put k v m.entries, nodup_put m.distinct⟩

/-- The entries under other keys. -/
def erase (m : Keyed κ α) (k : κ) : Keyed κ α :=
  m.retain (fun e => e.1 ≠ k)

/-- Entries put in one after the other: of a key that occurs more than once, the first use fixes the
place and the last one the value. -/
def ofList (es : List (κ × α)) : Keyed κ α :=
  es.foldl (fun m e => m.insert e.1 e.2) empty

/-! ## The view `get?` -/

@[simp] theorem get?_empty (k : κ) : (empty : Keyed κ α).get? k = none := rfl

@[simp] theorem get?_insert (m : Keyed κ α) (k j : κ) (v : α) :
    (m.insert k v).get? j = if k = j then some v else m.get? j :=
  lookup_put k j v m.entries

@[simp] theorem get?_retain (m : Keyed κ α) (p : κ × α → Bool) (k : κ) :
    (m.retain p).get? k = (m.get? k).filter (fun v => p (k, v)) :=
  lookup_filter m.distinct p k

@[simp] theorem get?_erase (m : Keyed κ α) (k j : κ) :
    (m.erase k).get? j = if j = k then none else m.get? j := by
  by_cases h : j = k
  · cases hm : m.get? k <;> simp [erase, h, hm]
  · cases hm : m.get? j <;> simp [erase, h, hm]

theorem mem_of_get? {m : Keyed κ α} {k : κ} {v : α} (h : m.get? k = some v) : (k, v) ∈ m.entries :=
  mem_of_lookup h

/-! ## The keys -/

theorem keys_insert_of_mem {m : Keyed κ α} {k : κ} {v : α} (h : k ∈ m.keys) :
    (m.insert k v).keys = m.keys :=
  map_fst_put_of_mem h

theorem keys_insert_of_not_mem {m : Keyed κ α} {k : κ} {v : α} (h : k ∉ m.keys) :
    (m.insert k v).keys = m.keys ++ [k] :=
  map_fst_put_of_not_mem h

theorem mem_keys_iff_get? (m : Keyed κ α) (k : κ) : k ∈ m.keys ↔ ∃ v, m.get? k = some v := by
  obtain ⟨es, hd⟩ := m
  show k ∈ es.map Prod.fst ↔ ∃ v, lookup k es = some v
  clear hd
  induction es with
  | nil => simp [lookup]
  | cons e rest ih =>
    obtain ⟨k', v'⟩ := e
    by_cases hk : k' = k
    · simp [lookup, hk]
    · simp only [List.map_cons, List.mem_cons, lookup, hk, if_false]
      rw [← ih]
      constructor
      · rintro (h | h)
        · exact absurd h.symm hk
        · exact h
      · exact Or.inr

end Keyed

end AltRender

import AltRender.Proofs.Workshop.Overtaken
import AltRender.Proofs.Workshop.Staying

/-!
# `Proofs/Workshop/Serialized` — renders at the same time

Any number of renders may run on one studio at the same time, each as a row of small steps, and the
steps of different renders may come in any order. Whatever the order, at most one of them is between
acquiring and giving up the lock of an entry; the lock that a render has hold of is the one that is
in the table under its path; and when none is under way, the table is empty, also if some of them
have failed (`IsSerialized`).

What follows for one entry is that it is made once (`IsMadeOnce`), under three conditions that are
named: it stays once it is made, it counts as current for all that want it, and no render for it
fails. Without the first one a second render would rightly make it again.
-/

set_option autoImplicit false

namespace AltRender

open AltRender.Disk

namespace Workshop

/-- **Renders for one entry are serialized:** one at a time has acquired the lock of the entry's
path; the lock that a render has hold of is the one in the table; and without a render that has hold
of one, the table is empty. -/
structure IsSerialized (w : Workshop) : Prop where
  alone : ∀ {i j : Nat} {x y : Worker},
    w.workers[i]? = some x → w.workers[j]? = some y → w.pathOf x.job = w.pathOf y.job →
    x.stage.acquired?.isSome = true → y.stage.acquired?.isSome = true → i = j
  held : ∀ {x : Worker} {lock : Nat}, x ∈ w.workers → x.stage.held? = some lock →
    w.locks.get? (w.pathOf x.job) = some lock
  empty : (∀ x ∈ w.workers, x.stage.held? = none) → w.locks = Keyed.empty

/-- **The entry at a path is made by one render at most:** those that want it and are done have
found it or made it, and no two have made it. -/
structure IsMadeOnce (w : Workshop) (path : Path) : Prop where
  results : ∀ {x : Worker} {result : Except RenderFault Rendered}, x ∈ w.workers →
    w.Wants path x.job →
    x.stage.result? = some result → result = .ok (.cached path) ∨ result = .ok (.created path)
  once : ∀ {i j : Nat} {x y : Worker}, w.workers[i]? = some x → w.workers[j]? = some y →
    w.Wants path x.job →
    w.Wants path y.job → x.stage.result? = some (.ok (.created path)) →
    y.stage.result? = some (.ok (.created path)) →
    i = j

/-- **Renders at the same time,** of any jobs and in any order of their steps. They are serialized
by the paths of their entries; and if the entry at a path stays once it is made, and no render for
it fails, then it is made once. -/
theorem serialized (studio : Studio) (jobs : List Job) (moves : List Move) :
    ((ofJobs studio jobs).afterAll moves).IsSerialized ∧
      ∀ path, (∀ before, before <+: moves → ((ofJobs studio jobs).afterAll before).Stays path) →
        (∀ x ∈ ((ofJobs studio jobs).afterAll moves).workers,
          ((ofJobs studio jobs).afterAll moves).Wants path x.job →
          ∀ fault, x.stage.result? ≠ some (.error fault)) →
        ((ofJobs studio jobs).afterAll moves).IsMadeOnce path := by
  have horderly := orderly_afterAll (orderly_ofJobs studio jobs) moves
  refine ⟨⟨horderly.eq_of_acquired, fun hx hlock => ?_, horderly.locks_eq_empty⟩,
    fun path hstays hsucceed => ?_⟩
  · obtain ⟨i, hi⟩ := List.mem_iff_getElem?.mp hx
    exact horderly.held hi hlock
  · have honce := once_afterAll (once_ofJobs path studio jobs) (orderly_ofJobs studio jobs) hstays
    refine ⟨fun hx hwants hresult => ?_, fun hx hy hwx hwy hxcreated hycreated => ?_⟩
    · obtain ⟨i, hi⟩ := List.mem_iff_getElem?.mp hx
      rcases honce.outcome hi hwants (Stage.outcome?_of_result? hresult) with
        hcached | hcreated | ⟨fault, rfl⟩
      · exact .inl hcached
      · exact .inr hcreated
      · exact absurd hresult (hsucceed _ hx hwants fault)
    · exact honce.alone hx hy ⟨hwx, Stage.outcome?_of_result? hxcreated⟩ hwy
        (.inr (Stage.outcome?_of_result? hycreated))

/-- The steps of two renders, where the second one waits for the lock that the first one has
acquired. -/
def twoTurns : List Move :=
  [0, 1, 0, 1, 0, 1, 0, 0, 0, 0, 0, 1, 1, 1, 1].map fun i =>
    .step i (Command.localFetch ⟨""⟩) ⟨1000000⟩

/-- Two renders of one source after these steps. -/
def twoRenders : Workshop :=
  (ofJobs (Studio.small ⟨"c"⟩ []) (List.replicate 2 Scene.smallJob)).afterAll twoTurns

theorem serialized_twoRenders :
    twoRenders.results =
        [.ok (.created ⟨"c/a_7f071235805f_invert.png"⟩),
          .ok (.cached ⟨"c/a_7f071235805f_invert.png"⟩)] ∧
      twoRenders.locks = Keyed.empty ∧ twoRenders.IsMadeOnce ⟨"c/a_7f071235805f_invert.png"⟩ := by
  obtain ⟨hresults, hfree⟩ : twoRenders.results =
      [.ok (.created ⟨"c/a_7f071235805f_invert.png"⟩),
        .ok (.cached ⟨"c/a_7f071235805f_invert.png"⟩)] ∧
      ∀ x ∈ twoRenders.workers, x.stage.held? = none := by
    decide +kernel
  obtain ⟨hserialized, honce⟩ :=
    serialized (Studio.small ⟨"c"⟩ []) (List.replicate 2 Scene.smallJob) twoTurns
  refine ⟨hresults, hserialized.empty hfree,
    honce _ (fun before hbefore => ?_) fun x hx _ fault hfault => ?_⟩
  · refine stays_of_steps (fun move hmem => ?_) hbefore
    obtain ⟨i, -, rfl⟩ := List.mem_map.mp hmem
    refine ⟨i, _, _, rfl, isLate_ofJobs.mpr fun job hjob _ => ?_⟩
    rw [List.eq_of_mem_replicate hjob]
    decide
  · have hmem : .error fault ∈ twoRenders.results := List.mem_filterMap.mpr ⟨x, hx, hfault⟩
    rw [hresults] at hmem
    exact absurd hmem (by simp)

end Workshop

end AltRender

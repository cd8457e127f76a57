import AltRender.Workshop.Basic

/-!
# `Workshop/Alone` — a render that has the workshop to itself

With nobody else around, the steps of a render can only be made one after the other. Its first check
decides whether there is anything to do; if there is, it makes a lock, acquires it at once, checks
again, loads and stores, and takes the lock out of the table again. So locks change nothing for a
render that is alone: it gives and leaves what `Studio.render` does (`finish_alone`).

Each lemma before the last is one step from one stage, with what the studio answers there as its
hypothesis; the last one goes through the stages in order and stops where the render does. The turns
that are left over find nothing to do.
-/

set_option autoImplicit false

namespace AltRender.Workshop

open AltRender.Disk

/-- A workshop with one render. -/
def alone (studio : Studio) (locks : Keyed Path Nat) (next : Nat) (job : Job) (stage : Stage) :
    Workshop :=
  ⟨studio, locks, next, [⟨job, stage⟩]⟩

section Alone

variable {fetch : Fetch} {now : Instant} {studio : Studio} {locks : Keyed Path Nat} {next : Nat}
  {job : Job}

/-- The lock of a render that is done is in nobody's hands. -/
theorem dropUnused_alone (result : Except RenderFault Rendered) (path : Path) (lock : Nat) :
    (alone studio (Keyed.empty.insert path lock) next job (.done result)).dropUnused path =
      alone studio Keyed.empty next job (.done result) := by
  have h : (Keyed.empty.insert path lock).get? path = some lock := by simp [Keyed.get?_insert]
  have e : (Keyed.empty.insert path lock : Keyed Path Nat).erase path = Keyed.empty := by
    simp [Keyed.erase, Keyed.retain, Keyed.insert, Keyed.empty, Keyed.put]
  simp [dropUnused, h, isHeld, alone, Stage.held?, Stage.acquired?, e]

theorem run_done (result : Except RenderFault Rendered) (n : Nat) :
    (alone studio locks next job (.done result)).run fetch now (List.replicate n 0) =
      alone studio locks next job (.done result) := by
  induction n with
  | zero => rfl
  | succ n ih => exact ih

theorem run_succ (stage : Stage) (n : Nat) :
    (alone studio locks next job stage).run fetch now (List.replicate (n + 1) 0) =
      ((alone studio locks next job stage).advance fetch now 0 job stage).run fetch now
        (List.replicate n 0) :=
  rfl

theorem turns_single (studio : Studio) (job : Job) :
    (ofJobs studio [job]).turns = List.replicate 8 0 := rfl

/-! ## Its stages, one after the other -/

theorem begun_of_isEmpty (h : (studio.registry.chainOf job.text).isEmpty = true) :
    (alone studio locks next job .begun).advance fetch now 0 job .begun =
      alone studio locks next job (.done (.ok .noFilters)) := by
  simp only [advance, chainOf, alone, h, if_true]
  rfl

theorem begun_of_check {hit : Bool} {after : Studio}
    (h : (studio.registry.chainOf job.text).isEmpty = false)
    (hc : studio.check job.source (studio.registry.chainOf job.text).signatures job.theme =
      (hit, after)) :
    (alone studio locks next job .begun).advance fetch now 0 job .begun =
      alone after locks next job (.ofFirstCheck (studio.cache.entryPath job.source
        (studio.registry.chainOf job.text).signatures job.theme) hit) := by
  simp only [advance, chainOf, alone, h, check, hc]
  rfl

/-- It gets a new lock and acquires it. -/
theorem run_missed (n : Nat) :
    (alone studio Keyed.empty next job .missed).run fetch now (List.replicate (n + 2) 0) =
      (alone studio (Keyed.empty.insert (studio.cache.entryPath job.source
        (studio.registry.chainOf job.text).signatures job.theme) next) (next + 1) job
        (.acquired next)).run fetch now (List.replicate n 0) := rfl

theorem acquired_of_check {hit : Bool} {after : Studio} {lock : Nat}
    (hc : studio.check job.source (studio.registry.chainOf job.text).signatures job.theme =
      (hit, after)) :
    (alone studio locks next job (.acquired lock)).advance fetch now 0 job (.acquired lock) =
      alone after locks next job (.ofCheck lock (studio.cache.entryPath job.source
        (studio.registry.chainOf job.text).signatures job.theme) hit) := by
  simp only [advance, chainOf, alone, check, hc]
  rfl

theorem missedAgain_of_load {result : Except RenderFault (List UInt8)} {after : Studio} {lock : Nat}
    (hl : studio.load fetch job.source (studio.registry.chainOf job.text) job.theme =
      (result, after)) :
    (alone studio locks next job (.missedAgain lock)).advance fetch now 0 job (.missedAgain lock) =
      alone after locks next job (.ofLoaded lock result) := by
  simp only [advance, chainOf, alone, hl]
  rfl

theorem loaded_of_store {result : Except RenderFault Unit} {after : Studio} {lock : Nat}
    {contents : List UInt8} {path : Path}
    (hp :
      studio.cache.entryPath job.source (studio.registry.chainOf job.text).signatures job.theme =
        path)
    (hs : studio.store path contents now = (result, after)) :
    (alone studio locks next job (.loaded lock contents)).advance fetch now 0 job
      (.loaded lock contents) =
      alone after locks next job (.built lock (result.map fun _ => .created path)) := by
  subst hp
  simp only [advance, alone, pathOf, chainOf, hs]
  rfl

/-- It gives the lock up, and nothing is left of it. -/
theorem run_built (lock : Nat) (result : Except RenderFault Rendered) {path : Path}
    (hp :
      studio.cache.entryPath job.source (studio.registry.chainOf job.text).signatures job.theme =
        path)
    (n : Nat) :
    (alone studio (Keyed.empty.insert path lock) next job (.built lock result)).run fetch now
        (List.replicate (n + 2) 0) =
      alone studio Keyed.empty next job (.done result) := by
  subst hp
  exact (congrArg (fun w => w.run fetch now (List.replicate n 0))
    (dropUnused_alone result _ lock)).trans
    (run_done result n)

/-- **A render that has the workshop to itself** gives and leaves what a render without locks
does. -/
theorem finish_alone (fetch : Fetch) (now : Instant) (studio : Studio) (job : Job) :
    ∃ next, (ofJobs studio [job]).finish fetch now =
      alone (studio.render fetch job.source job.text job.theme now).2 Keyed.empty next job
        (.done (studio.render fetch job.source job.text job.theme now).1) := by
  rw [finish, turns_single]
  change ∃ next, (alone studio Keyed.empty 0 job .begun).run fetch now (List.replicate 8 0) = _
  rw [run_succ]
  -- Down the stages of the one job, each answer of the studio taken as it comes: where the job is
  -- over early, the turns that are left change nothing.
  cases hc : (studio.registry.chainOf job.text).isEmpty with
  | true =>
    rw [begun_of_isEmpty hc, Studio.render_of_isEmpty hc]
    exact ⟨0, run_done _ 7⟩
  | false =>
    rcases h₁ : studio.check job.source (studio.registry.chainOf job.text).signatures job.theme with
      ⟨hit₁, s₁⟩
    have hplaces₁ : studio.SamePlaces s₁ := by
      simpa only [h₁] using studio.samePlaces_check job.source
        (studio.registry.chainOf job.text).signatures job.theme
    rw [begun_of_check hc h₁]
    cases hit₁ with
    | true =>
      rw [Studio.render_of_hit hc h₁]
      exact ⟨0, run_done _ 7⟩
    | false =>
      rcases h₂ : s₁.check job.source (studio.registry.chainOf job.text).signatures job.theme with
        ⟨hit₂, s₂⟩
      have hplaces₂ : studio.SamePlaces s₂ := hplaces₁.trans (by
        simpa only [h₂] using s₁.samePlaces_check job.source
          (studio.registry.chainOf job.text).signatures job.theme)
      refine ⟨1, (run_missed 5).trans ?_⟩
      rw [run_succ, acquired_of_check (by rw [hplaces₁.registry, h₂]), hplaces₁.registry,
        hplaces₁.entryPath]
      cases hit₂ with
      | true =>
        rw [Studio.render_of_late_hit hc h₁ h₂]
        exact run_built 0 _ (by rw [hplaces₂.registry, hplaces₂.entryPath]) 2
      | false =>
        rcases h₃ : s₂.load fetch job.source (studio.registry.chainOf job.text) job.theme with
          ⟨result, s₃⟩
        have hplaces₃ : studio.SamePlaces s₃ := hplaces₂.trans (by
          simpa only [h₃]
          using s₂.samePlaces_load fetch job.source (studio.registry.chainOf job.text) job.theme)
        change (alone s₂ _ 1 job (.missedAgain 0)).run fetch now (List.replicate (3 + 1) 0) = _
        rw [run_succ, missedAgain_of_load (by rw [hplaces₂.registry, h₃])]
        cases result with
        | error fault =>
          rw [Studio.render_of_load_error hc h₁ h₂ h₃]
          exact run_built 0 _ (by rw [hplaces₃.registry, hplaces₃.entryPath]) 1
        | ok contents =>
          rcases h₄ : s₃.store
            (studio.cache.entryPath job.source (studio.registry.chainOf job.text).signatures
            job.theme) contents now with ⟨stored, s₄⟩
          have hplaces₄ : studio.SamePlaces s₄ := hplaces₃.trans (by
            simpa only [h₄] using s₃.samePlaces_store (studio.cache.entryPath job.source
              (studio.registry.chainOf job.text).signatures job.theme) contents now)
          rw [Studio.render_of_store hc rfl h₁ h₂ h₃ h₄]
          change (alone s₃ _ 1 job (.loaded 0 contents)).run fetch now (List.replicate (2 + 1) 0) =
            _
          rw [run_succ, loaded_of_store (by rw [hplaces₃.registry, hplaces₃.entryPath]) h₄]
          exact run_built 0 _ (by rw [hplaces₄.registry, hplaces₄.entryPath]) 0

end Alone

end AltRender.Workshop

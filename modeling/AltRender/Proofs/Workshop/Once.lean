import AltRender.Proofs.Workshop.Locks

/-!
# `Proofs/Workshop/Once` — an entry that many want is built once

A render that has acquired the lock of its entry is alone with it, so the second check sees what the
one before it has stored. If an entry that was stored stays current for all that want it
(`Workshop.Stays`), then one render at most makes it, and the others find it.

What carries this from step to step is `Once`: every render that wants the entry has found it, made
it or failed, if it has come to anything; and while one render has made the entry, no other one is
building it or has made it. The second part needs the lock only for a moment. Two renders that are
building at the same time would both have acquired it, and a render that begins to build has just
found nothing, which it would not if another one had made the entry and it had stayed.
-/

set_option autoImplicit false

namespace AltRender

open AltRender.Disk

namespace Stage

/-- The result of a render, which is certain before the render gives up its lock. -/
def outcome? : Stage → Option (Except RenderFault Rendered)
  | .built _ result | .givenUp _ result | .done result => some result
  | _ => none

/-- Whether a render has found that its entry is to be made, and has not stored it yet. -/
def isBuilding : Stage → Bool
  | .missedAgain _ | .loaded _ _ => true
  | _ => false

theorem acquired?_of_isBuilding {stage : Stage} (h : stage.isBuilding = true) :
    stage.acquired?.isSome = true := by
  cases stage with
  | missedAgain lock => rfl
  | loaded lock contents => rfl
  | _ => exact absurd h (by simp [isBuilding])

theorem outcome?_of_result? {stage : Stage} {result : Except RenderFault Rendered}
    (h : stage.result? = some result) : stage.outcome? = some result := by
  cases stage with
  | done result' => exact h
  | _ => exact absurd h (by simp [result?])

end Stage

namespace Workshop

variable {fetch : Fetch} {now : Instant} {w w' : Workshop} {i j : Nat} {x y : Worker} {job : Job}
  {stage stage' : Stage} {studio : Studio} {path : Path} {lock : Nat}
  {result : Except RenderFault Rendered}

/-- The job is for the entry at a path. One without filters is for none. -/
structure Wants (w : Workshop) (path : Path) (job : Job) : Prop where
  filters : (w.chainOf job).isEmpty = false
  entry : w.pathOf job = path

/-- The render has made the entry at a path. -/
structure Makes (w : Workshop) (path : Path) (x : Worker) : Prop where
  wants : w.Wants path x.job
  created : x.stage.outcome? = some (.ok (.created path))

/-- **The entry at a path stays:** once a render has made it, every render that wants it would find
it current. -/
def Stays (w : Workshop) (path : Path) : Prop :=
  (∃ x ∈ w.workers, w.Makes path x) → ∀ y ∈ w.workers, w.Wants path y.job → (w.check y.job).1 = true

theorem wants_congr (h : w.studio.SamePlaces w'.studio) : w'.Wants path job ↔ w.Wants path job := by
  constructor
  · rintro ⟨hfilters, hentry⟩
    exact ⟨chainOf_congr h ▸ hfilters, pathOf_congr h ▸ hentry⟩
  · rintro ⟨hfilters, hentry⟩
    exact ⟨(chainOf_congr h).symm ▸ hfilters, (pathOf_congr h).symm ▸ hentry⟩

/-! ## What a turn leads to -/

/-- **How a render comes to its result:** it had it, found a current entry, stored one, or
failed. -/
theorem Turn.outcome? (h : Turn fetch now w job stage stage' studio)
    (hfilters : (w.chainOf job).isEmpty = false) (hresult : stage'.outcome? = some result) :
    stage.outcome? = some result ∨ result = .ok (.cached (w.pathOf job)) ∨
      (∃ lock contents, stage = .loaded lock contents ∧ result = .ok (.created (w.pathOf job)) ∧
        w.studio.store (w.pathOf job) contents now = (.ok (), studio)) ∨
      ∃ fault, result = .error fault := by
  -- A result comes from one of the two checks, from a failed load or from the store; a turn of
  -- another kind has the result that was there, or none.
  cases h with
  | noFilters hnone =>
    rw [hfilters] at hnone
    exact absurd hnone (by simp)
  | firstCheck hsome =>
    cases hcheck : (w.check job).1 with
    | true =>
      rw [hcheck] at hresult
      exact .inr (.inl (Option.some.inj hresult).symm)
    | false =>
      rw [hcheck] at hresult
      exact absurd hresult (by simp [Stage.ofFirstCheck, Stage.outcome?])
  | acquire lock hfree => exact absurd hresult (by simp [Stage.outcome?])
  | secondCheck lock =>
    cases hcheck : (w.check job).1 with
    | true =>
      rw [hcheck] at hresult
      exact .inr (.inl (Option.some.inj hresult).symm)
    | false =>
      rw [hcheck] at hresult
      exact absurd hresult (by simp [Stage.ofCheck, Stage.outcome?])
  | load lock =>
    cases hload : (w.studio.load fetch job.source (w.chainOf job) job.theme).1 with
    | error fault =>
      rw [hload] at hresult
      exact .inr (.inr (.inr ⟨fault, (Option.some.inj hresult).symm⟩))
    | ok contents =>
      rw [hload] at hresult
      exact absurd hresult (by simp [Stage.ofLoaded, Stage.outcome?])
  | store lock contents =>
    have hmapped := Option.some.inj hresult
    rcases hstore : w.studio.store (w.pathOf job) contents now with ⟨stored, after⟩
    rw [hstore] at hmapped
    cases stored with
    | error fault => exact .inr (.inr (.inr ⟨fault, hmapped.symm⟩))
    | ok stored => exact .inr (.inr (.inl ⟨lock, contents, rfl, hmapped.symm, by rw [hstore]⟩))
  | giveUp lock result' => exact .inl hresult

/-- A render begins to build when the second check finds nothing. -/
theorem Turn.isBuilding (h : Turn fetch now w job stage stage' studio)
    (hbuilding : stage'.isBuilding = true) : stage.isBuilding = true ∨ (w.check job).1 = false := by
  cases h with
  | firstCheck hsome =>
    refine absurd hbuilding ?_
    cases (w.check job).1 <;> simp [Stage.ofFirstCheck, Stage.isBuilding]
  | secondCheck lock =>
    cases hcheck : (w.check job).1 with
    | true =>
      rw [hcheck] at hbuilding
      exact absurd hbuilding (by simp [Stage.ofCheck, Stage.isBuilding])
    | false => exact .inr rfl
  | load lock => exact .inl rfl
  | store lock contents => exact absurd hbuilding (by simp [Stage.isBuilding])
  | _ => exact absurd hbuilding (by simp [Stage.isBuilding])

/-- A change of stage that builds nothing and brings no new result, like getting hold of a lock or
letting go of one. -/
structure Rests (stage stage' : Stage) : Prop where
  idle : stage'.isBuilding = false
  outcome : ∀ {result : Except RenderFault Rendered}, stage'.outcome? = some result →
    stage.outcome? = some result

theorem getHold_put (w : Workshop) (i : Nat) (path : Path) :
    ∃ lock, (w.getHold i path).workers = (w.put i (.waiting lock)).workers ∧
      (w.getHold i path).studio = w.studio := by
  unfold getHold
  split
  · exact ⟨_, rfl, rfl⟩
  · exact ⟨_, rfl, rfl⟩

/-- **What a step makes of the renders and the studio,** the locks apart. -/
theorem step_stage (w : Workshop) (fetch : Fetch) (now : Instant) (i : Nat) :
    w.step fetch now i = w ∨ ∃ x stage studio, w.workers[i]? = some x ∧
      (Turn fetch now w x.job x.stage stage studio ∨ studio = w.studio ∧ Rests x.stage stage) ∧
        (w.step fetch now i).workers = ({ w with studio := studio }.put i stage).workers ∧
        (w.step fetch now i).studio = studio := by
  cases hx : w.workers[i]? with
  | none => exact .inl (by rw [Workshop.step, hx])
  | some x =>
    rcases step_ways fetch now hx with
      hsame | ⟨stage, studio, hturn, hstep⟩ | ⟨-, hstep⟩ | ⟨lock, result, hstage, hstep⟩
    · exact .inl hsame
    · exact .inr ⟨x, stage, studio, rfl, .inl hturn, hstep ▸ rfl, hstep ▸ rfl⟩
    · obtain ⟨lock, hworkers, hstudio⟩ := getHold_put w i (w.pathOf x.job)
      rw [hstep]
      exact .inr ⟨x, _, w.studio, rfl,
        .inr ⟨rfl, rfl, fun hresult => absurd hresult (by simp [Stage.outcome?])⟩,
        hworkers, hstudio⟩
    · obtain ⟨hworkers, hstudio⟩ := dropUnused_frame (w.put i (.done result)) (w.pathOf x.job)
      rw [hstep]
      exact .inr ⟨x, _, w.studio, rfl,
        .inr ⟨rfl, rfl, fun hresult => by rw [hstage]; exact hresult⟩, hworkers,
        hstudio⟩

theorem samePlaces_of_turn_or_rests
    (h : Turn fetch now w job stage stage' studio ∨ studio = w.studio ∧ Rests stage stage') :
    w.studio.SamePlaces studio := by
  rcases h with hturn | ⟨rfl, -⟩
  · exact hturn.samePlaces
  · exact ⟨rfl, rfl, rfl⟩

/-! ## Once -/

/-- **The entry at a path is made once:** a render that wants it finds it, makes it or fails, and
while one has made it no other one makes it or has made it. -/
structure Once (path : Path) (w : Workshop) : Prop where
  outcome : ∀ {i : Nat} {x : Worker}, w.workers[i]? = some x → w.Wants path x.job → ∀ {result},
    x.stage.outcome? = some result →
      result = .ok (.cached path) ∨ result = .ok (.created path) ∨ ∃ fault, result = .error fault
  alone : ∀ {i j : Nat} {x y : Worker}, w.workers[i]? = some x → w.workers[j]? = some y →
    w.Makes path x →
    w.Wants path y.job → y.stage.isBuilding = true ∨ y.stage.outcome? = some (.ok (.created path)) →
    i = j

theorem Once.congr (h : Once path w) (hworkers : w'.workers = w.workers)
    (hplaces : w.studio.SamePlaces w'.studio) : Once path w' := by
  refine ⟨fun hx hwants => ?_, fun hx hy hmakes hwants => ?_⟩
  · exact h.outcome (hworkers ▸ hx) ((wants_congr hplaces).mp hwants)
  · exact h.alone (hworkers ▸ hx) (hworkers ▸ hy) ⟨(wants_congr hplaces).mp hmakes.wants,
      hmakes.created⟩
      ((wants_congr hplaces).mp hwants)

/-- **A render at another stage.** If it has a result there, it had it, has found the entry, has
built it, or failed; and it builds there only if it did so or has found nothing. -/
theorem Once.put (h : Once path w) (ho : w.Orderly) (hstays : w.Stays path)
    (hplaces : w.studio.SamePlaces studio) (hx : w.workers[i]? = some x)
    (houtcome : w.Wants path x.job →
      ∀ {result}, stage.outcome? = some result →
      x.stage.outcome? = some result ∨ result = .ok (.cached path) ∨
      (x.stage.isBuilding = true ∧ result = .ok (.created path)) ∨ ∃ fault, result = .error fault)
    (hbuilding : w.Wants path x.job → stage.isBuilding = true →
      x.stage.isBuilding = true ∨ (w.check x.job).1 = false) :
    Once path ({ w with studio := studio }.put i stage) := by
  have hwants : ∀ job, ({ w with studio := studio }.put i stage).Wants path job ↔
    w.Wants path job :=
    fun job => wants_congr hplaces
  -- A render that has made the entry at its new stage had made it or was building it.
  have hmade : w.Wants path x.job → stage.outcome? = some (.ok (.created path)) →
      x.stage.isBuilding = true ∨ x.stage.outcome? = some (.ok (.created path)) := by
    intro hwx hcreated
    rcases houtcome hwx hcreated with hold | hcached | ⟨hbuilt, -⟩ | ⟨fault, hfault⟩
    · exact .inr hold
    · exact absurd hcached (by simp)
    · exact .inl hbuilt
    · exact absurd hfault (by simp)
  refine ⟨fun hy hwy => ?_, fun hy hz hmakes hwz hlater => ?_⟩
  · rw [hwants] at hwy
    rcases getElem?_put (w := { w with studio := studio }) hx hy with ⟨rfl, rfl⟩ | ⟨-, hy'⟩
    · have hwx : w.Wants path x.job := hwy
      intro result hresult
      rcases houtcome hwx hresult with hold | hcached | ⟨-, hcreated⟩ | hfault
      · exact h.outcome hx hwx hold
      · exact .inl hcached
      · exact .inr (.inl hcreated)
      · exact .inr (.inr hfault)
    · exact h.outcome hy' hwy
  · refine eq_of_getElem?_put (w := { w with studio := studio }) (P := w.Makes path)
      (Q := fun z => w.Wants path z.job ∧
        (z.stage.isBuilding = true ∨ z.stage.outcome? = some (.ok (.created path))))
      hx (fun hy' hz' hmakes' hlater' => h.alone hy' hz' hmakes' hlater'.1 hlater'.2) ?_ ?_ hy hz
      ⟨(hwants _).mp hmakes.wants, hmakes.created⟩ ⟨(hwants _).mp hwz, hlater⟩
    · rintro k z hz' ⟨hwx, hcreated⟩ ⟨hwz', hlater'⟩
      rcases hmade hwx hcreated with hbuilt | hold
      · rcases hlater' with hzbuilding | hzcreated
        · exact ho.eq_of_acquired hx hz' (hwx.entry.trans hwz'.entry.symm)
            (Stage.acquired?_of_isBuilding hbuilt)
            (Stage.acquired?_of_isBuilding hzbuilding)
        · exact (h.alone hz' hx ⟨hwz', hzcreated⟩ hwx (.inl hbuilt)).symm
      · exact h.alone hx hz' ⟨hwx, hold⟩ hwz' hlater'
    · rintro j y hy' hmakes' ⟨hwx, hstage | hstage⟩
      · rcases hbuilding hwx hstage with hbuilt | hmissed
        · exact h.alone hy' hx hmakes' hwx (.inl hbuilt)
        · -- The entry was made, so the check cannot have missed it.
          have hhit := hstays ⟨_, List.mem_of_getElem? hy', hmakes'⟩ x (List.mem_of_getElem? hx) hwx
          rw [hmissed] at hhit
          exact absurd hhit (by simp)
      · exact h.alone hy' hx hmakes' hwx (hmade hwx hstage)

theorem Once.step (h : Once path w) (ho : w.Orderly) (hstays : w.Stays path) (fetch : Fetch)
    (now : Instant) (i : Nat) : Once path (w.step fetch now i) := by
  rcases step_stage w fetch now i with hsame | ⟨x, stage, studio, hx, hchange, hworkers, hstudio⟩
  · rw [hsame]
    exact h
  · have hput : Once path ({ w with studio := studio }.put i stage) := by
      refine h.put ho hstays (samePlaces_of_turn_or_rests hchange) hx
        (fun hwx {result} hresult => ?_) fun _ hbuilding => ?_
      · rcases hchange with hturn | ⟨-, hrests⟩
        · rcases hturn.outcome? hwx.filters hresult with
            hold | hcached | ⟨lock, contents, hloaded, hcreated, -⟩ | hfault
          · exact .inl hold
          · exact .inr (.inl (hwx.entry ▸ hcached))
          · exact .inr (.inr (.inl ⟨by rw [hloaded]; rfl, hwx.entry ▸ hcreated⟩))
          · exact .inr (.inr (.inr hfault))
        · exact .inl (hrests.outcome hresult)
      · rcases hchange with hturn | ⟨-, hrests⟩
        · exact hturn.isBuilding hbuilding
        · rw [hrests.idle] at hbuilding
          exact absurd hbuilding (by simp)
    exact hput.congr hworkers (hstudio ▸ ⟨rfl, rfl, rfl⟩)

theorem once_ofJobs (path : Path) (studio : Studio) (jobs : List Job) :
    Once path (ofJobs studio jobs) := by
  have hbegun : ∀ {i : Nat} {x : Worker}, (ofJobs studio jobs).workers[i]? = some x →
    x.stage.outcome? = none := by
    intro i x hx
    obtain ⟨job, -, rfl⟩ := List.mem_map.mp (List.mem_of_getElem? hx)
    rfl
  refine ⟨fun hx _ result hresult => ?_, fun hx _ hmakes => ?_⟩
  · rw [hbegun hx] at hresult
    exact absurd hresult (by simp)
  · have hcreated := hmakes.created
    rw [hbegun hx] at hcreated
    exact absurd hcreated (by simp)

/-- **An entry that stays is made once,** whatever the order of the steps. -/
theorem once_afterAll (h : Once path w) (ho : w.Orderly) {moves : List Move}
    (hstays : ∀ before, before <+: moves → (w.afterAll before).Stays path) :
    Once path (w.afterAll moves) := by
  induction moves generalizing w with
  | nil => exact h
  | cons move moves ih =>
    have hafter : Once path (w.after move) := by
      cases move with
      | step i fetch now => exact h.step ho (hstays [] List.nil_prefix) fetch now i
      | outside disk tally => exact h.congr rfl ⟨rfl, rfl, rfl⟩
    exact ih hafter (ho.after move) fun before hbefore =>
      hstays (move :: before) ((List.prefix_cons_inj move).mpr hbefore)

end Workshop

end AltRender

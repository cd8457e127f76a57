import AltRender.Proofs.Render.Tidy
import AltRender.Proofs.Workshop.Once

/-!
# `Proofs/Workshop/Staying` — when an entry stays

An entry that was made stays current as long as nothing is done to the disk but rendering, at times
that are late enough for the sources (`Workshop.stays_of_steps`).

A render changes the disk only when it stores what it made. If it stores under another path, the
file of the entry is left as it is; if under the same, there is a file again, with the time of that
step (`Studio.look_store`). Either way a file is there whose time is late enough for all that want
it, which is what a check asks for (`Workshop.Keeps`). Directories that are made on the way do not
matter, and a render that fails leaves the file alone.
-/

set_option autoImplicit false

namespace AltRender

open AltRender.Disk

namespace Disk

/-- A file that is found is found again where directories stay directories, with what then stands
there. -/
theorem look_file_of_seen {d d' : Disk} {p : Path} {bytes bytes' : List UInt8} {t t' : Instant}
    (h : d.look p = .ok (.file bytes t)) (hstart : d'.start = d.start)
    (hdir : ∀ l, d.isDirectoryAt l = true → d'.isDirectoryAt l = true)
    (hseen : d'.seen (p.destination d.start) = some (.file bytes' t')) :
    d'.look p = .ok (.file bytes' t') :=
  look_of_find (find_mono hstart hdir (look_ok h).1 (by rw [hseen]; rfl)) (item?_file_iff.mpr hseen)

end Disk

namespace Studio

variable {studio after : Studio} {p q : Path} {contents : List UInt8} {now t : Instant}
  {bytes : List UInt8} {result : Except RenderFault Unit}

/-- **What was stored is found.** -/
theorem look_of_store (h : studio.store p contents now = (.ok (), after)) :
    ∃ bytes, after.disk.look p = .ok (.file bytes now) := by
  obtain ⟨d₁, -, ⟨fault, hwrite⟩ | ⟨c₂, d₂, hinstall, hwrite⟩⟩ :=
    studio.cache.write_ways studio.disk p (contents) now
  · rw [store, hwrite] at h
    exact absurd (congrArg Prod.fst h) (by simp [Except.mapError])
  · rw [store, hwrite] at h
    obtain rfl := congrArg Prod.snd h
    exact ⟨_, look_of_install hinstall⟩

/-- **A file stays there when something is stored,** as it was or as what was stored. -/
theorem look_store (hstore : studio.store q contents now = (result, after))
    (h : studio.disk.look p = .ok (.file bytes t)) :
    ∃ bytes' t', after.disk.look p = .ok (.file bytes' t') ∧ (t' = t ∨ t' = now) := by
  have hseen := item?_file_iff.mp (look_ok h).2
  obtain ⟨d₁, hgrown, hways⟩ := studio.cache.write_ways studio.disk q (contents) now
  have hdir : ∀ l, studio.disk.isDirectoryAt l = true → d₁.isDirectoryAt l = true :=
    fun l hl => isDirectoryAt_iff.mpr (hgrown.kept l _ (isDirectoryAt_iff.mp hl))
  have hlook := look_file_of_seen h hgrown.start hdir (hgrown.kept _ _ hseen)
  rcases hways with ⟨fault, hwrite⟩ | ⟨c₂, d₂, hinstall, hwrite⟩
  · rw [store, hwrite] at hstore
    obtain rfl := congrArg Prod.snd hstore
    exact ⟨_, _, hlook, .inl rfl⟩
  · rw [store, hwrite] at hstore
    obtain rfl := congrArg Prod.snd hstore
    obtain ⟨haltered, hfolder⟩ := install_ok hinstall
    have hdir' : ∀ l, d₁.isDirectoryAt l = true → d₂.isDirectoryAt l = true :=
      fun l hl => haltered.isDirectoryAt_mono hfolder hl
    by_cases hplace : p.destination d₁.start = q.destination d₁.start
    · exact ⟨_, _, look_file_of_seen hlook haltered.start hdir' (hplace ▸ haltered.seen_self),
        .inr rfl⟩
    · have hsame := (haltered.seen_of_ne hplace).trans (item?_file_iff.mp (look_ok hlook).2)
      exact ⟨_, _, look_file_of_seen hlook haltered.start hdir' hsame, .inl rfl⟩

end Studio

namespace Workshop

variable {fetch : Fetch} {now : Instant} {w w' : Workshop} {i j : Nat} {x y : Worker} {job : Job}
  {stage stage' : Stage} {studio : Studio} {path : Path} {moves : List Move}

/-- Whether an entry from a time is current for all renders that want it. -/
def IsLate (w : Workshop) (path : Path) (t : Instant) : Prop :=
  ∀ y ∈ w.workers, w.Wants path y.job → Cache.isCurrentFor y.job.source (.file [] t) = true

/-- The entry that a render has made is a file that is current for all renders that want it. -/
def Keeps (w : Workshop) (path : Path) : Prop :=
  (∃ x ∈ w.workers, w.Makes path x) →
    ∃ bytes t, w.studio.disk.look path = .ok (.file bytes t) ∧ w.IsLate path t

theorem Keeps.stays (h : w.Keeps path) : w.Stays path := by
  intro hmade y hy hwants
  obtain ⟨bytes, t, hlook, hlate⟩ := h hmade
  have hlook' : w.studio.disk.look
    (w.studio.cache.entryPath y.job.source (w.chainOf y.job).signatures y.job.theme) =
      .ok (.file bytes t) := by
    rw [← hwants.entry] at hlook
    exact hlook
  have hcurrent :
    w.studio.cache.isCurrent w.studio.disk y.job.source (w.chainOf y.job).signatures y.job.theme =
      (w.check y.job).1 := Studio.isCurrent_of_check Prod.mk.eta.symm
  rw [← hcurrent, Cache.isCurrent_of_look hlook']
  exact hlate y hy hwants

/-- A change of stage does not change who wants what. -/
theorem isLate_put (hplaces : w.studio.SamePlaces studio) (hx : w.workers[i]? = some x)
    {t : Instant} (h : w.IsLate path t) :
    ({ w with studio := studio }.put i stage).IsLate path t := by
  intro y hy hwants
  obtain ⟨j, hj⟩ := List.mem_iff_getElem?.mp hy
  have hwants' : w.Wants path y.job := (wants_congr hplaces).mp hwants
  rcases getElem?_put (w := { w with studio := studio }) hx hj with ⟨rfl, rfl⟩ | ⟨-, hy'⟩
  · exact h x (List.mem_of_getElem? hx) hwants'
  · exact h y (List.mem_of_getElem? hy') hwants'

/-- Only storing changes the disk. -/
theorem Turn.disk (h : Turn fetch now w job stage stage' studio) :
    studio.disk = w.studio.disk ∨
    ∃ contents result, w.studio.store (w.pathOf job) contents now = (result, studio) := by
  cases h with
  | firstCheck hsome =>
    exact .inl (w.studio.alike_check job.source (w.chainOf job).signatures job.theme).disk
  | secondCheck lock =>
    exact .inl (w.studio.alike_check job.source (w.chainOf job).signatures job.theme).disk
  | load lock => exact .inl (w.studio.alike_load fetch job.source (w.chainOf job) job.theme).disk
  | store lock contents => exact .inr ⟨contents, _, Prod.mk.eta.symm⟩
  | _ => exact .inl rfl

/-- A file that is current for all that want it stays one in a turn that is not too early. -/
theorem Turn.look (h : Turn fetch now w job stage stage' studio) (hnow : w.IsLate path now)
    {bytes : List UInt8} {t : Instant} (hlook : w.studio.disk.look path = .ok (.file bytes t))
    (ht : w.IsLate path t) :
    ∃ bytes' t', studio.disk.look path = .ok (.file bytes' t') ∧ w.IsLate path t' := by
  rcases h.disk with hdisk | ⟨contents, result, hstore⟩
  · exact ⟨bytes, t, hdisk ▸ hlook, ht⟩
  · obtain ⟨bytes', t', hlook', rfl | rfl⟩ := Studio.look_store hstore hlook
    · exact ⟨bytes', t', hlook', ht⟩
    · exact ⟨bytes', t', hlook', hnow⟩

theorem Keeps.put (h : w.Keeps path) (hplaces : w.studio.SamePlaces studio)
    (hx : w.workers[i]? = some x)
    (hlook : ∀ {bytes t}, w.studio.disk.look path = .ok (.file bytes t) → w.IsLate path t →
      ∃ bytes' t', studio.disk.look path = .ok (.file bytes' t') ∧ w.IsLate path t')
    (hmade : w.Wants path x.job → stage.outcome? = some (.ok (.created path)) →
      x.stage.outcome? = some (.ok (.created path)) ∨
      ∃ bytes t, studio.disk.look path = .ok (.file bytes t) ∧ w.IsLate path t) :
    ({ w with studio := studio }.put i stage).Keeps path := by
  rintro ⟨y, hy, hmakes⟩
  obtain ⟨j, hj⟩ := List.mem_iff_getElem?.mp hy
  have hwants : w.Wants path y.job := (wants_congr hplaces).mp hmakes.wants
  have hcreated := hmakes.created
  have hfound : ∃ bytes t, studio.disk.look path = .ok (.file bytes t) ∧ w.IsLate path t := by
    have hold : (∃ z ∈ w.workers, w.Makes path z) →
      ∃ bytes t, studio.disk.look path = .ok (.file bytes t) ∧
        w.IsLate path t := fun hmade => by
      obtain ⟨bytes, t, hfile, hlate⟩ := h hmade
      exact hlook hfile hlate
    rcases getElem?_put (w := { w with studio := studio }) hx hj with ⟨rfl, rfl⟩ | ⟨-, hy'⟩
    · rcases hmade hwants hcreated with hxcreated | hnew
      · exact hold ⟨x, List.mem_of_getElem? hx, hwants, hxcreated⟩
      · exact hnew
    · exact hold ⟨y, List.mem_of_getElem? hy', hwants, hcreated⟩
  obtain ⟨bytes, t, hfile, hlate⟩ := hfound
  exact ⟨bytes, t, hfile, isLate_put hplaces hx hlate⟩

theorem Keeps.congr (h : w.Keeps path) (hworkers : w'.workers = w.workers)
    (hstudio : w'.studio = w.studio) : w'.Keeps path := by
  have hplaces : w.studio.SamePlaces w'.studio := by
    rw [hstudio]
    exact ⟨rfl, rfl, rfl⟩
  rintro ⟨x, hx, hmakes⟩
  rw [hworkers] at hx
  obtain ⟨bytes, t, hlook, hlate⟩ :=
    h ⟨x, hx, (wants_congr hplaces).mp hmakes.wants, hmakes.created⟩
  rw [← hstudio] at hlook
  refine ⟨bytes, t, hlook, fun y hy hwants => ?_⟩
  rw [hworkers] at hy
  exact hlate y hy ((wants_congr hplaces).mp hwants)

theorem IsLate.congr {t : Instant} (h : w.IsLate path t) (hworkers : w'.workers = w.workers)
    (hstudio : w'.studio = w.studio) : w'.IsLate path t := by
  have hplaces : w.studio.SamePlaces w'.studio := by
    rw [hstudio]
    exact ⟨rfl, rfl, rfl⟩
  intro y hy hwants
  rw [hworkers] at hy
  exact h y hy ((wants_congr hplaces).mp hwants)

theorem IsLate.step {t : Instant} (h : w.IsLate path t) (fetch : Fetch) (now : Instant) (i : Nat) :
    (w.step fetch now i).IsLate path t := by
  rcases step_stage w fetch now i with hsame | ⟨x, stage, studio, hx, hchange, hworkers, hstudio⟩
  · rw [hsame]
    exact h
  · exact (isLate_put (samePlaces_of_turn_or_rests hchange) hx h).congr hworkers hstudio

/-- **A step at a time that is late enough** keeps what was made. -/
theorem Keeps.step (h : w.Keeps path) (hnow : w.IsLate path now) (fetch : Fetch) (i : Nat) :
    (w.step fetch now i).Keeps path := by
  rcases step_stage w fetch now i with hsame | ⟨x, stage, studio, hx, hchange, hworkers, hstudio⟩
  · rw [hsame]
    exact h
  · have hput : ({ w with studio := studio }.put i stage).Keeps path := by
      refine h.put (samePlaces_of_turn_or_rests hchange) hx (fun hlook ht => ?_)
        fun hwants hcreated => ?_
      · rcases hchange with hturn | ⟨rfl, -⟩
        · exact hturn.look hnow hlook ht
        · exact ⟨_, _, hlook, ht⟩
      · rcases hchange with hturn | ⟨-, hrests⟩
        · rcases hturn.outcome? hwants.filters hcreated with
            hold | hcached | ⟨lock, contents, -, -, hstore⟩ | ⟨fault, hfault⟩
          · exact .inl hold
          · exact absurd hcached (by simp)
          · obtain ⟨bytes, hlook⟩ := Studio.look_of_store hstore
            exact .inr ⟨bytes, now, hwants.entry ▸ hlook, hnow⟩
          · exact absurd hfault (by simp)
        · exact .inl (hrests.outcome hcreated)
    exact hput.congr hworkers hstudio

theorem isLate_ofJobs {jobs : List Job} {t : Instant} :
    (ofJobs studio jobs).IsLate path t ↔
      ∀ job ∈ jobs, (ofJobs studio jobs).Wants path job →
      Cache.isCurrentFor job.source (.file [] t) = true := by
  rw [IsLate, ofJobs, List.forall_mem_map]

/-- The move is a step of a render, at a time whose entries are current for all that want the
path. -/
def IsLateStep (w : Workshop) (path : Path) (move : Move) : Prop :=
  ∃ i fetch now, move = .step i fetch now ∧ w.IsLate path now

theorem keeps_afterAll (h : w.Keeps path) (hmoves : ∀ move ∈ moves, w.IsLateStep path move) :
    (w.afterAll moves).Keeps path := by
  induction moves generalizing w with
  | nil => exact h
  | cons move moves ih =>
    obtain ⟨hmove, hrest⟩ := List.forall_mem_cons.mp hmoves
    obtain ⟨i, fetch, now, rfl, hnow⟩ := hmove
    refine ih (h.step hnow fetch i) fun move hmem => ?_
    obtain ⟨i', fetch', now', rfl, hnow'⟩ := hrest move hmem
    exact ⟨i', fetch', now', rfl, hnow'.step fetch now i⟩

/-- **With nothing but renders, at times that are late enough for the sources, entries stay.** -/
theorem stays_of_steps {jobs : List Job}
    (hmoves : ∀ move ∈ moves, (ofJobs studio jobs).IsLateStep path move) {before : List Move}
    (hbefore : before <+: moves) : ((ofJobs studio jobs).afterAll before).Stays path := by
  have hnone : (ofJobs studio jobs).Keeps path := by
    rintro ⟨x, hx, hmakes⟩
    obtain ⟨job, -, rfl⟩ := List.mem_map.mp hx
    exact absurd hmakes.created (by simp [Stage.outcome?])
  exact (keeps_afterAll hnone fun move hmem => hmoves move (hbefore.subset hmem)).stays

end Workshop

end AltRender

import AltRender.Proofs.Render.Run
import AltRender.Proofs.Workshop.Locks

/-!
# `Proofs/Workshop/Scene` — a render while its source is changed

A scene has one render, which makes its steps one by one, and between these its source may be
written or its entries be removed. It keeps track of whether the render is *overtaken*: whether the
source was written after the render had loaded it and before it stored what it made, with nothing
done since that would mend it.

Most steps of a render leave the disk alone. What matters in a scene are the two that do not only
look: the load, which fixes what is going to be stored, and the store (`Workshop.step_cases`).
-/

set_option autoImplicit false

namespace AltRender

open AltRender.Disk AltRender.Cache AltRender.Text

/-- Whether a render has made a picture and not stored it yet. -/
def Stage.isLoaded : Stage → Bool
  | .loaded .. => true
  | _ => false

/-- Whether a render neither loads nor stores anything any more. -/
def Stage.isOver : Stage → Bool
  | .built .. => true
  | .givenUp .. => true
  | .done _ => true
  | _ => false

/-- The name of a job's entry. -/
def Job.entry (job : Job) : String :=
  entryName job.source (Registry.builtin.chainOf job.text).signatures job.theme

namespace Workshop

/-! ## One step -/

theorem workers_put {w : Workshop} {job : Job} {stage : Stage} (h : w.workers = [⟨job, stage⟩])
    (stage' : Stage) : (w.put 0 stage').workers = [⟨job, stage'⟩] := by
  rw [put, h]
  rfl

theorem getHold_frame {w : Workshop} {job : Job} {stage : Stage} (h : w.workers = [⟨job, stage⟩])
    (path : Path) :
    ∃ lock, (w.getHold 0 path).workers = [⟨job, .waiting lock⟩] ∧
      (w.getHold 0 path).studio = w.studio := by
  unfold getHold
  split
  · exact ⟨_, workers_put h _, rfl⟩
  · exact ⟨_, workers_put h _, rfl⟩

/-- **What a step of a lone render can do:** nothing to the disk, a load, or a store. -/
theorem step_cases {fetch : Fetch} {now : Instant} {w : Workshop} {job : Job} {stage : Stage}
    (h : w.workers = [⟨job, stage⟩]) :
    ∃ stage', (w.step fetch now 0).workers = [⟨job, stage'⟩] ∧
      ((stage'.isLoaded = false ∧ (stage.isOver = true → stage'.isOver = true) ∧
          Studio.Alike w.studio (w.step fetch now 0).studio) ∨
        (∃ lock result, stage = .missedAgain lock ∧ stage' = .ofLoaded lock result ∧
          w.studio.load fetch job.source (w.chainOf job) job.theme =
            (result, (w.step fetch now 0).studio)) ∨
        ∃ lock contents result, stage = .loaded lock contents ∧ stage'.isLoaded = false ∧
          stage'.isOver = true ∧
          w.studio.store (w.pathOf job) contents now = (result, (w.step fetch now 0).studio)) := by
  have hstep : w.step fetch now 0 = w.advance fetch now 0 job stage := by
    rw [step, h]
    rfl
  rw [hstep]
  -- Only a load and a store touch more of the studio than what a check leaves alike; every other
  -- stage is of the first kind.
  cases stage with
  | begun =>
    simp only [advance]
    split
    · exact ⟨_, workers_put h _, .inl ⟨rfl, fun hover => absurd hover Bool.false_ne_true, .refl _⟩⟩
    · have halike := w.studio.alike_check job.source (w.chainOf job).signatures job.theme
      change Studio.Alike w.studio (w.check job).2 at halike
      rcases hcheck : w.check job with ⟨hit, studio⟩
      rw [hcheck] at halike
      refine ⟨_, workers_put h _, .inl ⟨?_, fun hover => absurd hover Bool.false_ne_true, halike⟩⟩
      unfold Stage.ofFirstCheck
      split <;> rfl
  | missed =>
    obtain ⟨lock, hworkers, hstudio⟩ := getHold_frame h (w.pathOf job)
    exact ⟨_, hworkers, .inl ⟨rfl, fun hover => absurd hover Bool.false_ne_true, hstudio ▸ .refl _⟩⟩
  | waiting lock =>
    simp only [advance]
    split
    · exact ⟨_, h, .inl ⟨rfl, fun hover => absurd hover Bool.false_ne_true, .refl _⟩⟩
    · exact ⟨_, workers_put h _, .inl ⟨rfl, fun hover => absurd hover Bool.false_ne_true, .refl _⟩⟩
  | acquired lock =>
    have halike := w.studio.alike_check job.source (w.chainOf job).signatures job.theme
    change Studio.Alike w.studio (w.check job).2 at halike
    rcases hcheck : w.check job with ⟨hit, studio⟩
    rw [hcheck] at halike
    simp only [advance, hcheck]
    refine ⟨_, workers_put h _, .inl ⟨?_, fun hover => absurd hover Bool.false_ne_true, halike⟩⟩
    unfold Stage.ofCheck
    split <;> rfl
  | missedAgain lock =>
    rcases hload : w.studio.load fetch job.source (w.chainOf job) job.theme with ⟨result, studio⟩
    simp only [advance, hload]
    exact ⟨_, workers_put h _, .inr (.inl ⟨lock, result, rfl, rfl, rfl⟩)⟩
  | loaded lock contents =>
    rcases hstore : w.studio.store (w.pathOf job) contents now with ⟨result, studio⟩
    simp only [advance, hstore]
    exact ⟨_, workers_put h _, .inr (.inr ⟨lock, contents, result, rfl, rfl, rfl, hstore⟩)⟩
  | built lock result => exact ⟨_, workers_put h _, .inl ⟨rfl, fun _ => rfl, .refl _⟩⟩
  | givenUp lock result =>
    obtain ⟨hworkers, hstudio⟩ := dropUnused_frame (w.put 0 (.done result)) (w.pathOf job)
    exact ⟨_, hworkers.trans (workers_put h _), .inl ⟨rfl, fun _ => rfl, hstudio ▸ .refl _⟩⟩
  | done result => exact ⟨_, h, .inl ⟨rfl, fun _ => rfl, .refl _⟩⟩

end Workshop

/-! ## Scenes -/

/-- What may happen while a render is on its way: the render makes its next step, or something is
done to its source. -/
inductive Event where
  | step
  | overwrite (bytes : List UInt8)
  | invalidate

/-- A workshop with one render, and whether the render is overtaken: its source was written between
the load and the store, and nothing was done about the entry since. -/
structure Scene where
  shop : Workshop
  overtaken : Bool

namespace Scene

/-- A render that is still to be made. -/
def ofJob (studio : Studio) (job : Job) : Scene :=
  ⟨Workshop.ofJobs studio [job], false⟩

/-- Whether the render has made a picture and not stored it yet. -/
def isLoaded (x : Scene) : Bool :=
  x.shop.workers.any fun worker => worker.stage.isLoaded

/-- **The scene after an event.** Writing the source overtakes a render that has loaded it and not
stored what it made. A write at any other time makes good for that, and so does the removal of the
entries once the render has stored. -/
def after (fetch : Fetch) (root : Path) (job : Job) (x : Scene) (now : Instant) : Event → Scene
  | .step => { x with shop := x.shop.step fetch now 0 }
  | .overwrite bytes =>
    match x.shop.studio.disk.write (root.join ⟨job.source.identity⟩) bytes now with
    | .ok d => ⟨{ x.shop with studio := { x.shop.studio with disk := d } }, x.isLoaded⟩
    | .error _ => x
  | .invalidate =>
    ⟨{ x.shop with studio := (x.shop.studio.invalidate job.source now).2 },
      x.overtaken && x.isLoaded⟩

/-- The scene after several events, each with its time. -/
def play (fetch : Fetch) (root : Path) (job : Job) (x : Scene) (events : List (Instant × Event)) :
    Scene :=
  events.foldl (fun x e => x.after fetch root job e.1 e.2) x

end Scene

end AltRender

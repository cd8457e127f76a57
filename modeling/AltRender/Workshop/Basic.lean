import AltRender.Render

/-!
# `Workshop` — renders at the same time

Renders for different entries do not wait for each other. Renders for the same entry do: each of
them takes the lock of the entry's path before it builds, and once it has it, it looks for a current
entry again, so an entry that many want is built once. Locks are made on demand and kept in a table
by path. The last render that has a use for a lock takes it out of the table.

A render is cut into the steps between which others can do something: the first check, getting hold
of the lock, acquiring it, the second check, loading, storing, giving the lock up and letting go of
it. A workshop is what all renders share, and how far each of them has come. Who makes the next step
is up to a schedule; a render whose lock another one has acquired stays where it is.

A render that has the workshop to itself gives and leaves what `Studio.render` does
(`Workshop/Alone`).
-/

set_option autoImplicit false

namespace AltRender

open AltRender.Disk

/-- What a render is asked for. -/
structure Job where
  source : Source
  text : String
  theme : Option Theme

/-- How far a render has come. Locks are numbered in the order they are made. -/
inductive Stage where
  | begun
  | missed
  | waiting (lock : Nat)
  | acquired (lock : Nat)
  | missedAgain (lock : Nat)
  | loaded (lock : Nat) (contents : List UInt8)
  | built (lock : Nat) (result : Except RenderFault Rendered)
  | givenUp (lock : Nat) (result : Except RenderFault Rendered)
  | done (result : Except RenderFault Rendered)

namespace Stage

/-- The lock that a render has acquired. -/
def acquired? : Stage → Option Nat
  | .acquired lock | .missedAgain lock | .loaded lock _ | .built lock _ => some lock
  | _ => none

/-- The lock that a render has hold of, acquired or not. -/
def held? : Stage → Option Nat
  | .waiting lock | .givenUp lock _ => some lock
  | stage => stage.acquired?

/-- The stage after loading: what was loaded is stored, and a fault is the result. -/
def ofLoaded (lock : Nat) : Except RenderFault (List UInt8) → Stage
  | .ok contents => .loaded lock contents
  | .error fault => .built lock (.error fault)

/-- The stage after a check while the lock is acquired. -/
def ofCheck (lock : Nat) (path : Path) (hit : Bool) : Stage :=
  if hit then .built lock (.ok (.cached path)) else .missedAgain lock

/-- The stage after the first check. -/
def ofFirstCheck (path : Path) (hit : Bool) : Stage :=
  if hit then .done (.ok (.cached path)) else .missed

/-- What the render gave, once it is done. -/
def result? : Stage → Option (Except RenderFault Rendered)
  | .done result => some result
  | _ => none

end Stage

/-- A render on its way. -/
structure Worker where
  job : Job
  stage : Stage

/-- What renders share, the table of locks, the number of the next lock, and the renders. -/
structure Workshop where
  studio : Studio
  locks : Keyed Path Nat
  nextLock : Nat
  workers : List Worker

namespace Workshop

/-- A workshop where all jobs are still to be done. -/
def ofJobs (studio : Studio) (jobs : List Job) : Workshop :=
  ⟨studio, Keyed.empty, 0, jobs.map fun job => ⟨job, .begun⟩⟩

/-- The results of the renders that are done. -/
def results (w : Workshop) : List (Except RenderFault Rendered) :=
  w.workers.filterMap fun x => x.stage.result?

/-! ## Jobs -/

def chainOf (w : Workshop) (job : Job) : Chain :=
  w.studio.registry.chainOf job.text

def pathOf (w : Workshop) (job : Job) : Path :=
  w.studio.cache.entryPath job.source (w.chainOf job).signatures job.theme

/-- Whether there is a current entry for a job, and the studio that has counted the check. -/
def check (w : Workshop) (job : Job) : Bool × Studio :=
  w.studio.check job.source (w.chainOf job).signatures job.theme

/-! ## Locks -/

/-- Whether a render has acquired a lock. -/
def isAcquired (w : Workshop) (lock : Nat) : Bool :=
  w.workers.any fun x => x.stage.acquired? = some lock

def isHeld (w : Workshop) (lock : Nat) : Bool :=
  w.workers.any fun x => x.stage.held? = some lock

/-- The workshop with a render at another stage. -/
def put (w : Workshop) (i : Nat) (stage : Stage) : Workshop :=
  { w with workers := w.workers.modify i fun x => { x with stage := stage } }

/-- A render gets hold of the lock in the table, which is made if there is none. -/
def getHold (w : Workshop) (i : Nat) (path : Path) : Workshop :=
  match w.locks.get? path with
  | some lock => w.put i (.waiting lock)
  | none =>
    { w with locks := w.locks.insert path w.nextLock, nextLock :=
      w.nextLock + 1 }.put i (.waiting w.nextLock)

/-- The lock of a path taken out of the table if no render has hold of it. -/
def dropUnused (w : Workshop) (path : Path) : Workshop :=
  match w.locks.get? path with
  | some lock => if w.isHeld lock then w else { w with locks := w.locks.erase path }
  | none => w

/-! ## Steps -/

/-- The next step of the render with a job that has come to a stage. -/
def advance (fetch : Fetch) (now : Instant) (w : Workshop) (i : Nat) (job : Job) : Stage → Workshop
  | .begun =>
    if (w.chainOf job).isEmpty then w.put i (.done (.ok .noFilters))
    else
      let (hit, studio) := w.check job
      { w with studio := studio }.put i (.ofFirstCheck (w.pathOf job) hit)
  | .missed => w.getHold i (w.pathOf job)
  | .waiting lock => if w.isAcquired lock then w else w.put i (.acquired lock)
  | .acquired lock =>
    let (hit, studio) := w.check job
    { w with studio := studio }.put i (.ofCheck lock (w.pathOf job) hit)
  | .missedAgain lock =>
    let (result, studio) := w.studio.load fetch job.source (w.chainOf job) job.theme
    { w with studio := studio }.put i (.ofLoaded lock result)
  | .loaded lock contents =>
    let (result, studio) := w.studio.store (w.pathOf job) contents now
    { w with studio := studio }.put i (.built lock (result.map fun _ => .created (w.pathOf job)))
  | .built lock result => w.put i (.givenUp lock result)
  -- A render lets go of its lock before it looks whether anybody else still has hold of it.
  | .givenUp _ result => (w.put i (.done result)).dropUnused (w.pathOf job)
  | .done _ => w

/-- **The next step of a render.** -/
def step (fetch : Fetch) (now : Instant) (w : Workshop) (i : Nat) : Workshop :=
  match w.workers[i]? with
  | none => w
  | some x => w.advance fetch now i x.job x.stage

/-- **The workshop after the steps of a schedule,** which says who makes each of them. -/
def run (fetch : Fetch) (now : Instant) (w : Workshop) (schedule : List Nat) : Workshop :=
  schedule.foldl (fun w i => w.step fetch now i) w

/-- The number of steps from the start of a render to its end. -/
def stepCount : Nat := 8

/-- A schedule where the renders take turns until all of them are done: in every turn one of those
that want the same entry makes a step. -/
def turns (w : Workshop) : List Nat :=
  (List.replicate (stepCount * w.workers.length) (List.range w.workers.length)).flatten

/-- The workshop after the renders have taken turns. -/
def finish (fetch : Fetch) (now : Instant) (w : Workshop) : Workshop :=
  w.run fetch now w.turns

end Workshop

end AltRender

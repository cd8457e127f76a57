import AltRender.Workshop.Basic

/-!
# `Proofs/Workshop/Locks` — the table of locks

A lock is taken out of the table when the last render that has a use for it lets go. If that
happened a moment too early, two renders for one entry would wait for different locks and build side
by side; if it happened too late or never, the table would only grow. Neither can be, whatever the
order of the steps: the table has a lock exactly as long as some render has hold of it (`Orderly`),
so at any time at most one render for an entry has acquired its lock (`Orderly.eq_of_acquired`), and
a workshop where nobody has hold of a lock has an empty table (`Orderly.locks_eq_empty`).

`step_ways` says once what a step can do, and every invariant here is kept by each of its ways.
`Locked` is what most steps keep by themselves; that no lock is left over takes a look at the step
that lets go.
-/

set_option autoImplicit false

namespace AltRender

open AltRender.Disk

theorem Keyed.eq_empty_of_keys {κ α : Type} {m : Keyed κ α} (h : m.keys = []) :
    m = Keyed.empty := by
  obtain ⟨entries, hdistinct⟩ := m
  obtain rfl := List.map_eq_nil_iff.mp h
  rfl

/-- What may happen next: a render makes a step, with the sources and at the time there is then, or
something else is done to the disk and counted. -/
inductive Move where
  | step (i : Nat) (fetch : Fetch) (now : Instant)
  | outside (disk : Disk) (tally : Tally)

namespace Workshop

def after (w : Workshop) : Move → Workshop
  | .step i fetch now => w.step fetch now i
  | .outside disk tally =>
    { w with studio :=
      { w.studio with cache := { w.studio.cache with tally := tally }, disk := disk } }

/-- The workshop after several moves. A thread that renders several times is several of its renders,
whose steps come one after the other. -/
def afterAll (w : Workshop) (moves : List Move) : Workshop :=
  moves.foldl after w

variable {fetch : Fetch} {now : Instant} {w : Workshop} {i j : Nat} {x y : Worker} {job : Job}
  {stage : Stage} {studio : Studio} {path : Path} {lock : Nat}

theorem chainOf_congr {w' : Workshop} (h : w.studio.SamePlaces w'.studio) :
    w'.chainOf = w.chainOf := by
  funext job
  rw [chainOf, h.registry, chainOf]

theorem pathOf_congr {w' : Workshop} (h : w.studio.SamePlaces w'.studio) :
    w'.pathOf = w.pathOf := by
  funext job
  rw [pathOf, chainOf_congr h, h.entryPath, pathOf]

/-! ## The renders after a change of stage -/

theorem getElem?_put_self (hx : w.workers[i]? = some x) (stage : Stage) :
    (w.put i stage).workers[i]? = some ⟨x.job, stage⟩ := by
  simp [put, hx]

theorem getElem?_put_of_ne (h : i ≠ j) (stage : Stage) :
    (w.put i stage).workers[j]? = w.workers[j]? := by
  simp [put, h]

/-- A render is the one that has come to another stage, or stands where it stood. -/
theorem getElem?_put (hx : w.workers[i]? = some x) (hy : (w.put i stage).workers[j]? = some y) :
    (i = j ∧ y = ⟨x.job, stage⟩) ∨ (i ≠ j ∧ w.workers[j]? = some y) := by
  by_cases h : i = j
  · subst h
    rw [getElem?_put_self hx, Option.some.injEq] at hy
    exact .inl ⟨rfl, hy.symm⟩
  · rw [getElem?_put_of_ne h] at hy
    exact .inr ⟨h, hy⟩

/-- **What only one render has before,** only one has after: the render at its new stage is all that
is new. -/
theorem eq_of_getElem?_put {P Q : Worker → Prop} {k : Nat} {z : Worker}
    (hx : w.workers[i]? = some x)
    (hold : ∀ {j k : Nat} {y z}, w.workers[j]? = some y → w.workers[k]? = some z → P y → Q z →
      j = k)
    (hleft : ∀ {k : Nat} {z}, w.workers[k]? = some z → P ⟨x.job, stage⟩ → Q z → i = k)
    (hright : ∀ {j : Nat} {y}, w.workers[j]? = some y → P y → Q ⟨x.job, stage⟩ → j = i)
    (hy : (w.put i stage).workers[j]? = some y) (hz : (w.put i stage).workers[k]? = some z)
    (hP : P y) (hQ : Q z) : j = k := by
  rcases getElem?_put hx hy with ⟨rfl, rfl⟩ | ⟨-, hy'⟩
  · rcases getElem?_put hx hz with ⟨rfl, -⟩ | ⟨-, hz'⟩
    · rfl
    · exact hleft hz' hP hQ
  · rcases getElem?_put hx hz with ⟨rfl, rfl⟩ | ⟨-, hz'⟩
    · exact hright hy' hP hQ
    · exact hold hy' hz' hP hQ

theorem isAcquired_of_getElem? (hx : w.workers[i]? = some x) (h : x.stage.acquired? = some lock) :
    w.isAcquired lock = true :=
  List.any_eq_true.mpr ⟨x, List.mem_of_getElem? hx, decide_eq_true h⟩

theorem isHeld_iff :
    w.isHeld lock = true ↔
      ∃ i : Nat, ∃ x : Worker, w.workers[i]? = some x ∧ x.stage.held? = some lock := by
  rw [isHeld, List.any_eq_true]
  constructor
  · rintro ⟨x, hmem, hx⟩
    obtain ⟨i, hi⟩ := List.mem_iff_getElem?.mp hmem
    exact ⟨i, x, hi, of_decide_eq_true hx⟩
  · rintro ⟨i, x, hi, hx⟩
    exact ⟨x, List.mem_of_getElem? hi, decide_eq_true hx⟩

/-- A render has hold of the lock that it has acquired. -/
theorem held?_of_acquired? (h : stage.acquired? = some lock) : stage.held? = some lock := by
  cases stage with
  | waiting lock' => exact absurd h (by simp [Stage.acquired?])
  | givenUp lock' result => exact absurd h (by simp [Stage.acquired?])
  | _ => exact h

/-! ## One step -/

/-- **What a render does in a step that leaves the table of locks alone:** the stage it comes to,
and the studio then. -/
inductive Turn (fetch : Fetch) (now : Instant) (w : Workshop) (job : Job) :
    Stage → Stage → Studio → Prop where
  | noFilters (hnone : (w.chainOf job).isEmpty = true) :
      Turn fetch now w job .begun (.done (.ok .noFilters)) w.studio
  | firstCheck (hsome : (w.chainOf job).isEmpty = false) :
      Turn fetch now w job .begun (.ofFirstCheck (w.pathOf job) (w.check job).1) (w.check job).2
  | acquire (lock : Nat) (hfree : w.isAcquired lock = false) :
      Turn fetch now w job (.waiting lock) (.acquired lock) w.studio
  | secondCheck (lock : Nat) :
      Turn fetch now w job (.acquired lock) (.ofCheck lock (w.pathOf job) (w.check job).1)
        (w.check job).2
  | load (lock : Nat) :
      Turn fetch now w job (.missedAgain lock)
        (.ofLoaded lock (w.studio.load fetch job.source (w.chainOf job) job.theme).1)
        (w.studio.load fetch job.source (w.chainOf job) job.theme).2
  | store (lock : Nat) (contents : List UInt8) :
      Turn fetch now w job (.loaded lock contents)
        (.built lock ((w.studio.store (w.pathOf job) contents now).1.map fun _ =>
          .created (w.pathOf job)))
        (w.studio.store (w.pathOf job) contents now).2
  | giveUp (lock : Nat) (result : Except RenderFault Rendered) :
      Turn fetch now w job (.built lock result) (.givenUp lock result) w.studio

/-- **What a step can do:** nothing, if the lock that is waited for has been acquired or there is
nothing left to do; a turn; getting hold of a lock; letting go of one. -/
theorem step_ways (fetch : Fetch) (now : Instant) (hx : w.workers[i]? = some x) :
    w.step fetch now i = w ∨
      (∃ stage studio, Turn fetch now w x.job x.stage stage studio ∧
        w.step fetch now i = { w with studio := studio }.put i stage) ∨
      (x.stage = .missed ∧ w.step fetch now i = w.getHold i (w.pathOf x.job)) ∨
      ∃ lock result, x.stage = .givenUp lock result ∧
        w.step fetch now i = (w.put i (.done result)).dropUnused (w.pathOf x.job) := by
  obtain ⟨job, stage⟩ := x
  have hstep : w.step fetch now i = w.advance fetch now i job stage := by
    rw [step, hx]
  rw [hstep]
  -- Two stages reach for the map of locks; at any other a step is idle, or a turn of the worker
  -- alone.
  cases stage with
  | begun =>
    cases hnone : (w.chainOf job).isEmpty with
    | true => exact .inr (.inl ⟨_, _, .noFilters hnone, by simp only [advance, hnone, if_true]⟩)
    | false =>
      exact .inr (.inl ⟨_, _, .firstCheck hnone,
        by simp only [advance, hnone, Bool.false_eq_true, if_false]⟩)
  | missed => exact .inr (.inr (.inl ⟨rfl, rfl⟩))
  | waiting lock =>
    cases hfree : w.isAcquired lock with
    | true => exact .inl (by simp only [advance, hfree, if_true])
    | false =>
      exact .inr (.inl ⟨_, _, .acquire lock hfree,
        by simp only [advance, hfree, Bool.false_eq_true, if_false]⟩)
  | acquired lock => exact .inr (.inl ⟨_, _, .secondCheck lock, by simp only [advance]⟩)
  | missedAgain lock => exact .inr (.inl ⟨_, _, .load lock, by simp only [advance]⟩)
  | loaded lock contents => exact .inr (.inl ⟨_, _, .store lock contents, by simp only [advance]⟩)
  | built lock result => exact .inr (.inl ⟨_, _, .giveUp lock result, rfl⟩)
  | givenUp lock result => exact .inr (.inr (.inr ⟨lock, result, rfl, rfl⟩))
  | done result => exact .inl rfl

namespace Turn

variable {stage' : Stage}

theorem samePlaces (h : Turn fetch now w job stage stage' studio) : w.studio.SamePlaces studio := by
  cases h with
  | firstCheck hsome => exact w.studio.samePlaces_check _ _ _
  | secondCheck lock => exact w.studio.samePlaces_check _ _ _
  | load lock => exact w.studio.samePlaces_load _ _ _ _
  | store lock contents => exact w.studio.samePlaces_store _ _ _
  | _ => exact ⟨rfl, rfl, rfl⟩

/-- A turn changes nothing about the lock that a render has hold of. -/
theorem held? (h : Turn fetch now w job stage stage' studio) : stage'.held? = stage.held? := by
  cases h with
  | firstCheck hsome => cases (w.check job).1 <;> rfl
  | secondCheck lock => cases (w.check job).1 <;> rfl
  | load lock => cases (w.studio.load fetch job.source (w.chainOf job) job.theme).1 <;> rfl
  | _ => rfl

/-- A lock that is acquired in a turn was nobody's. -/
theorem acquired? (h : Turn fetch now w job stage stage' studio)
    (hlock : stage'.acquired? = some lock) :
    stage.acquired? = some lock ∨ w.isAcquired lock = false := by
  cases h with
  | noFilters hnone => exact absurd hlock (by simp [Stage.acquired?])
  | firstCheck hsome =>
    refine absurd hlock ?_
    cases (w.check job).1 <;> simp [Stage.ofFirstCheck, Stage.acquired?]
  | acquire lock' hfree =>
    obtain rfl : lock' = lock := Option.some.inj hlock
    exact .inr hfree
  | secondCheck lock' =>
    left
    rw [← hlock]
    cases (w.check job).1 <;> rfl
  | load lock' =>
    left
    rw [← hlock]
    cases (w.studio.load fetch job.source (w.chainOf job) job.theme).1 <;> rfl
  | store lock' contents => exact .inl hlock
  | giveUp lock' result => exact absurd hlock (by simp [Stage.acquired?])

end Turn

/-! ## What holds of the table -/

/-- **The table says which lock is whose:** the lock that a render has hold of stands under the path
of its entry, no lock stands under two paths, and no two renders have acquired one lock. -/
structure Locked (w : Workshop) : Prop where
  held : ∀ {i : Nat} {x : Worker} {lock : Nat},
    w.workers[i]? = some x → x.stage.held? = some lock → w.locks.get? (w.pathOf x.job) = some lock
  numbered : ∀ {path : Path} {lock : Nat}, w.locks.get? path = some lock → lock < w.nextLock
  apart : ∀ {path path' : Path} {lock : Nat}, w.locks.get? path = some lock →
    w.locks.get? path' = some lock → path = path'
  alone : ∀ {i j : Nat} {x y : Worker} {lock : Nat}, w.workers[i]? = some x →
    w.workers[j]? = some y →
    x.stage.acquired? = some lock → y.stage.acquired? = some lock → i = j

/-- The same, and no lock is left over: each one in the table is some render's. -/
structure Orderly (w : Workshop) : Prop extends Locked w where
  wanted : ∀ {path : Path} {lock : Nat}, w.locks.get? path = some lock → w.isHeld lock = true

/-- **A render at another stage.** The lock it then has hold of is the one in the table, and a lock
that it acquires was nobody's. -/
theorem Locked.put (h : w.Locked) (hplaces : w.studio.SamePlaces studio)
    (hx : w.workers[i]? = some x)
    (hheld : ∀ lock, stage.held? = some lock → w.locks.get? (w.pathOf x.job) = some lock)
    (hacquired : ∀ lock, stage.acquired? = some lock →
      x.stage.acquired? = some lock ∨ w.isAcquired lock = false) :
    ({ w with studio := studio }.put i stage).Locked := by
  have hpath : ({ w with studio := studio }.put i stage).pathOf = w.pathOf := pathOf_congr hplaces
  -- Somebody else cannot have acquired what the render acquires now.
  have hother : ∀ {j : Nat} {y : Worker} {lock : Nat},
      stage.acquired? = some lock → w.workers[j]? = some y → y.stage.acquired? = some lock →
      i = j := by
    intro j y lock hlock hy hylock
    rcases hacquired lock hlock with hxlock | hfree
    · exact h.alone hx hy hxlock hylock
    · rw [isAcquired_of_getElem? hy hylock] at hfree
      exact absurd hfree (by simp)
  refine ⟨fun hy hlock => ?_, h.numbered, h.apart, fun {_ _ _ _ lock} hy hz => ?_⟩
  · rw [hpath]
    rcases getElem?_put (w := { w with studio := studio }) hx hy with ⟨-, rfl⟩ | ⟨-, hy'⟩
    · exact hheld _ hlock
    · exact h.held hy' hlock
  · exact eq_of_getElem?_put (w := { w with studio := studio })
      (P := fun y => y.stage.acquired? = some lock)
      (Q := fun z => z.stage.acquired? = some lock) hx h.alone
        (fun hz' hlock hzlock => hother hlock hz' hzlock)
      (fun hy' hylock hlock => (hother hlock hy' hylock).symm) hy hz

/-- **A new lock in the table** has a number that no other one has. -/
theorem Locked.insert (h : w.Locked) (hnone : w.locks.get? path = none) :
    { w with locks := w.locks.insert path w.nextLock, nextLock := w.nextLock + 1 }.Locked := by
  -- The new number is above all that are held or on the map, so no two paths can share it.
  refine ⟨fun {i x lock} hx hlock => ?_, fun {p l} hp => ?_, fun {p p' l} hp hp' => ?_, h.alone⟩
  · have hold := h.held hx hlock
    have hne : path ≠ w.pathOf x.job := fun heq => by
      rw [← heq, hnone] at hold
      exact absurd hold (by simp)
    exact (Keyed.get?_insert _ _ _ _).trans ((if_neg hne).trans hold)
  · rw [Keyed.get?_insert] at hp
    split at hp
    · obtain rfl := Option.some.inj hp
      exact Nat.lt_succ_self _
    · exact Nat.lt_succ_of_lt (h.numbered hp)
  · rw [Keyed.get?_insert] at hp hp'
    split at hp
    · rename_i heq
      obtain rfl := Option.some.inj hp
      split at hp'
      · rename_i heq'
        exact heq.symm.trans heq'
      · exact absurd (h.numbered hp') (Nat.lt_irrefl _)
    · split at hp'
      · obtain rfl := Option.some.inj hp'
        exact absurd (h.numbered hp) (Nat.lt_irrefl _)
      · exact h.apart hp hp'

theorem dropUnused_frame (w : Workshop) (path : Path) :
    (w.dropUnused path).workers = w.workers ∧ (w.dropUnused path).studio = w.studio := by
  unfold dropUnused
  split
  · split <;> exact ⟨rfl, rfl⟩
  · exact ⟨rfl, rfl⟩

/-- A lock leaves the table only if nobody has hold of it. -/
theorem dropUnused_cases (w : Workshop) (path : Path) :
    (w.dropUnused path = w ∧ ∀ lock, w.locks.get? path = some lock → w.isHeld lock = true) ∨
      ∃ lock, w.locks.get? path = some lock ∧ w.isHeld lock = false ∧
        w.dropUnused path = { w with locks := w.locks.erase path } := by
  unfold dropUnused
  cases hlock : w.locks.get? path with
  | none => exact .inl ⟨rfl, fun lock h => absurd h (by simp)⟩
  | some lock =>
    cases hheld : w.isHeld lock with
    | true =>
      refine .inl ⟨if_pos hheld, fun lock' h => ?_⟩
      obtain rfl := Option.some.inj h
      exact hheld
    | false => exact .inr ⟨lock, rfl, hheld, if_neg (by simp [hheld])⟩

theorem Locked.dropUnused (h : w.Locked) (path : Path) : (w.dropUnused path).Locked := by
  rcases dropUnused_cases w path with ⟨hsame, -⟩ | ⟨lock₀, hlock₀, hfree, herased⟩
  · rw [hsame]
    exact h
  · rw [herased]
    have hkept : ∀ {p : Path} {l : Nat}, (w.locks.erase path).get? p = some l →
      w.locks.get? p = some l := by
      intro p l hp
      rw [Keyed.get?_erase] at hp
      split at hp
      · exact absurd hp (by simp)
      · exact hp
    refine ⟨fun {i x lock} hx hlock => ?_, fun hp => h.numbered (hkept hp),
      fun hp hp' => h.apart (hkept hp) (hkept hp'),
      h.alone⟩
    have hold := h.held hx hlock
    have hne : w.pathOf x.job ≠ path := fun heq => by
      rw [heq, hlock₀, Option.some.injEq] at hold
      rw [isHeld_iff (w := w) |>.mpr ⟨i, x, hx, hold ▸ hlock⟩] at hfree
      exact absurd hfree (by simp)
    exact (Keyed.get?_erase _ _ _).trans ((if_neg hne).trans hold)

/-! ## Every move keeps it -/

/-- What another render has hold of, it still has hold of; and so has the render itself what it
keeps. -/
theorem isHeld_put (hx : w.workers[i]? = some x) (h : w.isHeld lock = true)
    (hkeep : x.stage.held? = some lock → stage.held? = some lock) :
    (w.put i stage).isHeld lock = true := by
  obtain ⟨j, y, hy, hlock⟩ := isHeld_iff.mp h
  by_cases hij : i = j
  · subst hij
    obtain rfl := Option.some.inj (hx.symm.trans hy)
    exact isHeld_iff.mpr ⟨i, _, getElem?_put_self hx stage, hkeep hlock⟩
  · exact isHeld_iff.mpr ⟨j, y, (getElem?_put_of_ne hij stage).trans hy, hlock⟩

theorem Orderly.turn {stage' : Stage} (h : w.Orderly) (hx : w.workers[i]? = some x)
    (hturn : Turn fetch now w x.job x.stage stage' studio) :
    ({ w with studio := studio }.put i stage').Orderly := by
  refine ⟨h.toLocked.put hturn.samePlaces hx (fun lock hlock => h.held hx (hturn.held? ▸ hlock))
    fun lock hlock => hturn.acquired? hlock, fun hp => ?_⟩
  exact isHeld_put (w := { w with studio := studio }) hx (h.wanted hp) fun hlock =>
    hturn.held?.trans hlock

theorem Orderly.getHold (h : w.Orderly) (hx : w.workers[i]? = some x) (hstage : x.stage = .missed) :
    (w.getHold i (w.pathOf x.job)).Orderly := by
  have hnothing : ∀ lock, x.stage.held? ≠ some lock := fun lock => by
    simp [hstage, Stage.held?, Stage.acquired?]
  have hacquired : ∀ lock l, (Stage.waiting lock).acquired? = some l →
      x.stage.acquired? = some l ∨ w.isAcquired l = false :=
    fun lock l hl => absurd hl (by simp [Stage.acquired?])
  unfold Workshop.getHold
  -- A lock that is there is taken over; where there is none the new one is first put on the map,
  -- with a number no other has.
  cases hlock : w.locks.get? (w.pathOf x.job) with
  | some lock =>
    refine ⟨h.toLocked.put ⟨rfl, rfl, rfl⟩ hx (fun l hl => ?_) (hacquired lock), fun hp => ?_⟩
    · obtain rfl : lock = l := Option.some.inj hl
      exact hlock
    · exact isHeld_put hx (h.wanted hp) fun hheld => absurd hheld (hnothing _)
  | none =>
    refine ⟨(h.toLocked.insert hlock).put ⟨rfl, rfl, rfl⟩ hx (fun l hl => ?_) (hacquired _),
      fun {p l} hp => ?_⟩
    · obtain rfl : w.nextLock = l := Option.some.inj hl
      exact (Keyed.get?_insert _ _ _ _).trans (if_pos rfl)
    · change (w.locks.insert (w.pathOf x.job) w.nextLock).get? p = some l at hp
      rw [Keyed.get?_insert] at hp
      split at hp
      · obtain rfl := Option.some.inj hp
        exact isHeld_iff.mpr ⟨i, _, getElem?_put_self hx _, rfl⟩
      · exact isHeld_put (w := { w with locks := _, nextLock := _ }) hx (h.wanted hp)
          fun hheld => absurd hheld (hnothing _)

/-- **Letting go.** The only lock that may be left over is the one let go of, and that one is looked
after. -/
theorem Orderly.letGo {result : Except RenderFault Rendered} (h : w.Orderly)
    (hx : w.workers[i]? = some x) (hstage : x.stage = .givenUp lock result) :
    ((w.put i (.done result)).dropUnused (w.pathOf x.job)).Orderly := by
  have hlocked : (w.put i (.done result)).Locked :=
    h.toLocked.put ⟨rfl, rfl, rfl⟩ hx
      (fun l hl => absurd hl (by simp [Stage.held?, Stage.acquired?]))
      fun l hl => absurd hl (by simp [Stage.acquired?])
  have hheld : x.stage.held? = some lock := by rw [hstage]; rfl
  have hlock : w.locks.get? (w.pathOf x.job) = some lock := h.held hx hheld
  -- Only this worker leaves its lock; whoever holds another one still does.
  have hothers : ∀ {p : Path} {l : Nat}, w.locks.get? p = some l → l ≠ lock →
    (w.put i (.done result)).isHeld l = true :=
    fun hp hne => isHeld_put hx (h.wanted hp) fun hl =>
      absurd (Option.some.inj (hl.symm.trans hheld)) hne
  refine ⟨hlocked.dropUnused _, fun {p l} hp => ?_⟩
  rcases dropUnused_cases (w.put i (.done result)) (w.pathOf x.job) with
    ⟨hsame, hused⟩ | ⟨lock₀, -, -, herased⟩
  · rw [hsame] at hp ⊢
    by_cases hl : l = lock
    · exact hl ▸ hused lock hlock
    · exact hothers hp hl
  · rw [herased] at hp ⊢
    change (w.locks.erase (w.pathOf x.job)).get? p = some l at hp
    rw [Keyed.get?_erase] at hp
    split at hp
    · exact absurd hp (by simp)
    · rename_i hne
      exact hothers hp fun hl => hne (h.apart (hl ▸ hp) hlock)

theorem Orderly.step (h : w.Orderly) (fetch : Fetch) (now : Instant) (i : Nat) :
    (w.step fetch now i).Orderly := by
  cases hx : w.workers[i]? with
  | none =>
    rw [Workshop.step, hx]
    exact h
  | some x =>
    rcases step_ways fetch now hx with
      hsame | ⟨stage, studio, hturn, hstep⟩ | ⟨hstage, hstep⟩ | ⟨lock, result, hstage, hstep⟩
    · rw [hsame]
      exact h
    · exact hstep ▸ h.turn hx hturn
    · exact hstep ▸ h.getHold hx hstage
    · exact hstep ▸ h.letGo hx hstage

theorem Orderly.after (h : w.Orderly) (move : Move) : (w.after move).Orderly := by
  cases move with
  | step i fetch now => exact h.step fetch now i
  | outside disk tally => exact ⟨⟨h.held, h.numbered, h.apart, h.alone⟩, h.wanted⟩

theorem orderly_ofJobs (studio : Studio) (jobs : List Job) : (ofJobs studio jobs).Orderly := by
  have hbegun : ∀ {i : Nat} {x : Worker}, (ofJobs studio jobs).workers[i]? = some x →
    x.stage = .begun := by
    intro i x hx
    obtain ⟨job, -, rfl⟩ := List.mem_map.mp (List.mem_of_getElem? hx)
    rfl
  refine ⟨⟨fun hx hlock => ?_, fun hp => absurd hp (by simp [ofJobs]),
    fun hp => absurd hp (by simp [ofJobs]),
    fun hx hy hlock => ?_⟩, fun hp => absurd hp (by simp [ofJobs])⟩
  · rw [hbegun hx] at hlock
    exact absurd hlock (by simp [Stage.held?, Stage.acquired?])
  · rw [hbegun hx] at hlock
    exact absurd hlock (by simp [Stage.acquired?])

/-- **Whatever the order of the steps, the table is in order.** -/
theorem orderly_afterAll (h : w.Orderly) (moves : List Move) : (w.afterAll moves).Orderly := by
  induction moves generalizing w with
  | nil => exact h
  | cons move moves ih => exact ih (h.after move)

/-! ## What follows -/

/-- **At most one render for an entry has acquired the entry's lock.** -/
theorem Orderly.eq_of_acquired (h : w.Orderly) (hx : w.workers[i]? = some x)
    (hy : w.workers[j]? = some y) (hpath : w.pathOf x.job = w.pathOf y.job)
    (hxa : x.stage.acquired?.isSome = true) (hya : y.stage.acquired?.isSome = true) : i = j := by
  obtain ⟨lock, hxlock⟩ := Option.isSome_iff_exists.mp hxa
  obtain ⟨lock', hylock⟩ := Option.isSome_iff_exists.mp hya
  have hxheld := h.held hx (held?_of_acquired? hxlock)
  have hyheld := h.held hy (held?_of_acquired? hylock)
  rw [hpath, hyheld, Option.some.injEq] at hxheld
  exact h.alone hx hy hxlock (hxheld ▸ hylock)

/-- **When nobody has hold of a lock, the table is empty.** -/
theorem Orderly.locks_eq_empty (h : w.Orderly) (hnone : ∀ x ∈ w.workers, x.stage.held? = none) :
    w.locks = Keyed.empty := by
  have hkeys : w.locks.keys = [] := by
    refine List.eq_nil_iff_forall_not_mem.mpr fun path hpath => ?_
    obtain ⟨lock, hlock⟩ := (Keyed.mem_keys_iff_get? _ _).mp hpath
    obtain ⟨i, x, hx, hheld⟩ := isHeld_iff.mp (h.wanted hlock)
    rw [hnone x (List.mem_of_getElem? hx)] at hheld
    exact absurd hheld (by simp)
  exact Keyed.eq_empty_of_keys hkeys

end Workshop

end AltRender

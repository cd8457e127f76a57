import AltRender.Picture.Container
import AltRender.Proofs.Cache.Clearing
import AltRender.Proofs.Cache.Staging
import AltRender.Proofs.Render.Ways

/-!
# `Proofs/Render/Account` — what the counters count

Whoever looks at the counters of a studio wants to read from them what was done. That is possible,
whatever it was and whatever went wrong on the way: each counter is the number of certain answers
that were given (`Accounted`). A render that builds has checked twice before; one that finds its
entry has checked once; and one that was asked for nothing has done nothing. What other programs do
to the disk meanwhile makes no difference.

The induction is over the operations, and the statement about one of them does not name the numbers
the counters start from (`perform_accounted`), so that operations can be put one after the other.
For a render there are the five ways it can go; for a write and a clear it has to be looked up what
they count, and in which order: a write counts when it has succeeded, and a clear each file after it
is gone.
-/

set_option autoImplicit false

namespace AltRender

open AltRender.Disk AltRender.Cache

/-! ## Writing -/

/-- **A write that succeeds is counted,** in whichever way it was made. -/
theorem Cache.Writer.write_ok {w : Writer} {c c' : Cache} {d d' : Disk} {p : Path}
    {bytes : List UInt8} {now : Instant} (h : w.write c d p bytes now = (.ok (), c', d')) :
    c' = { c with tally := c.tally.addWrite } := by
  cases w with
  | atOnce =>
    rw [Writer.write] at h
    exact (write_done h).1
  | staged r temporary =>
    simp only [Writer.write, writeStaged] at h
    split at h
    · exact absurd h (by simp)
    · split at h
      · exact absurd h (by simp)
      · obtain ⟨-, rfl, -⟩ := h
        rfl

namespace Studio

/-! ## Operations -/

/-- What can be asked of a studio. Each write has its own way, and each render its own way to the
bytes of its source. -/
inductive Operation where
  | render (w : Writer) (fetch : Fetch) (s : Source) (text : String) (theme : Option Theme)
      (now : Instant)
  | present (w : Writer) (fetch : Fetch) (s : Source) (text : String) (theme : Option Theme)
      (now : Instant)
  | check (s : Source) (signatures : List String) (theme : Option Theme)
  | write (w : Writer) (p : Path) (bytes : List UInt8) (now : Instant)
  | clear (s : Source) (signatures : List String) (theme : Option Theme) (now : Instant)
  | invalidate (s : Source) (now : Instant)
  | clearEntire (now : Instant)
  | moveCache (directory : Path) (now : Instant)
  /-- Nothing is asked, but another program has changed the disk. -/
  | elsewhere (d : Disk)

/-- What came of it. -/
inductive Answer where
  | rendered (result : Except RenderFault Rendered)
  | checked (hit : Bool)
  | written (result : Except Fault Unit)
  /-- Some files are gone. -/
  | cleared (files : List Location)
  | nothing

/-- **One operation,** and what came of it. A render that is to be shown counts as the render it
is. -/
def perform (studio : Studio) : Operation → Answer × Studio
  | .render w fetch s text theme now =>
    let (result, after) := studio.renderBy w fetch s text theme now
    (.rendered result, after)
  | .present w fetch s text theme now =>
    (.rendered (studio.renderBy w fetch s text theme now).1,
      (studio.presentBy w fetch s text theme now).2)
  | .check s signatures theme =>
    let (hit, after) := studio.check s signatures theme
    (.checked hit, after)
  | .write w p bytes now =>
    let (result, cache, disk) := w.write studio.cache studio.disk p bytes now
    (.written result, { studio with cache := cache, disk := disk })
  | .clear s signatures theme now =>
    let (cache, disk) := studio.cache.clear studio.disk s signatures theme now
    (.cleared (studio.disk.lost disk), { studio with cache := cache, disk := disk })
  | .invalidate s now =>
    let (_, after) := studio.invalidate s now
    (.cleared (studio.disk.lost after.disk), after)
  | .clearEntire now =>
    let (_, after) := studio.clearEntire now
    (.cleared (studio.disk.lost after.disk), after)
  | .moveCache directory now => (.nothing, studio.moveCache directory now)
  | .elsewhere d => (.nothing, { studio with disk := d })

/-- Several operations one after the other. -/
def performAll (studio : Studio) : List Operation → List Answer × Studio
  | [] => ([], studio)
  | operation :: rest =>
    let (answer, after) := studio.perform operation
    let (answers, last) := performAll after rest
    (answer :: answers, last)

/-- A studio that has done nothing yet. -/
def ofParts (registry : Registry) (codec : Codec) (vaultRoot directory : Path) (d : Disk) :
    Studio :=
  ⟨registry, codec, .ofDirectory vaultRoot directory, d, 0⟩

/-! ## Answers that count -/

namespace Answer

/-- A render found its entry. -/
def isCached : Answer → Bool
  | rendered (.ok (.cached _)) => true
  | _ => false

/-- A render made its entry. -/
def isCreated : Answer → Bool
  | rendered (.ok (.created _)) => true
  | _ => false

def isFailed : Answer → Bool
  | rendered (.error _) => true
  | _ => false

def isFound : Answer → Bool
  | checked hit => hit
  | _ => false

def isMissed : Answer → Bool
  | checked hit => !hit
  | _ => false

def isWritten : Answer → Bool
  | written (.ok ()) => true
  | _ => false

/-- The files that are gone. -/
def files : Answer → List Location
  | cleared files => files
  | _ => []

end Answer

/-- **The counters are the numbers of answers that were given since they stood at some numbers.** -/
structure Accounted (studio : Studio) (answers : List Answer) (after : Studio) : Prop where
  hits : after.cache.tally.hits =
    studio.cache.tally.hits + (answers.countP (·.isCached) + answers.countP (·.isFound))
  misses : after.cache.tally.misses =
    studio.cache.tally.misses + (2 * (answers.countP (·.isCreated) + answers.countP (·.isFailed)) +
      answers.countP (·.isMissed))
  writes : after.cache.tally.writes =
    studio.cache.tally.writes + (answers.countP (·.isCreated) + answers.countP (·.isWritten))
  evictions : after.cache.tally.evictions =
    studio.cache.tally.evictions + (answers.flatMap (·.files)).length
  reads : after.reads = studio.reads + (answers.countP (·.isCreated) + answers.countP (·.isFailed))

namespace Accounted

variable {studio middle after : Studio} {answers answers' : List Answer}

theorem nil (studio : Studio) : Accounted studio [] studio :=
  ⟨rfl, rfl, rfl, rfl, rfl⟩

theorem append (h : Accounted studio answers middle) (h' : Accounted middle answers' after) :
    Accounted studio (answers ++ answers') after := by
  refine ⟨?_, ?_, ?_, ?_, ?_⟩
  · rw [h'.hits, h.hits, List.countP_append, List.countP_append]
    omega
  · rw [h'.misses, h.misses, List.countP_append, List.countP_append, List.countP_append]
    omega
  · rw [h'.writes, h.writes, List.countP_append, List.countP_append]
    omega
  · rw [h'.evictions, h.evictions, List.flatMap_append, List.length_append]
    omega
  · rw [h'.reads, h.reads, List.countP_append, List.countP_append]
    omega

end Accounted

/-! ## One operation -/

section Step

variable {studio : Studio}

theorem presentBy_snd (studio : Studio) (w : Writer) (fetch : Fetch) (s : Source) (text : String)
    (theme : Option Theme) (now : Instant) :
    (studio.presentBy w fetch s text theme now).2 =
      (studio.renderBy w fetch s text theme now).2 := by
  unfold presentBy
  split
  · rename_i hrender
    rw [hrender]
  · rename_i hrender
    rw [hrender]

/-- **A render is accounted for,** whichever way it goes. -/
theorem Goes.accounted {w : Writer} {fetch : Fetch} {s : Source} {chain : Chain}
    {theme : Option Theme} {now : Instant} {result : Except RenderFault Rendered} {after : Studio}
    (h : Goes w fetch studio s chain theme now result after) :
    Accounted studio [.rendered result] after := by
  cases h with
  | idle => exact ⟨rfl, rfl, rfl, rfl, rfl⟩
  | hit => exact ⟨rfl, rfl, rfl, rfl, rfl⟩
  | unmade => exact ⟨rfl, rfl, rfl, rfl, rfl⟩
  | unwritten _ _ _ hwrite =>
    -- The cache that is left is the one from after the two checks.
    obtain ⟨rfl, -⟩ := Writer.write_error hwrite
    exact ⟨rfl, rfl, rfl, rfl, rfl⟩
  | written _ _ _ hwrite =>
    obtain rfl := Writer.write_ok hwrite
    exact ⟨rfl, rfl, rfl, rfl, rfl⟩

/-- Files that are counted as they are removed are accounted for. -/
theorem accounted_of_evictions {n : Nat} {d : Disk} (h : n = (studio.disk.lost d).length) :
    Accounted studio [.cleared (studio.disk.lost d)]
      { studio with cache :=
        { studio.cache with tally := studio.cache.tally.addEvictions n }, disk := d } := by
  refine ⟨rfl, rfl, rfl, ?_, rfl⟩
  show studio.cache.tally.evictions + n = _
  rw [h, List.flatMap_singleton]
  rfl

/-- **Every operation is accounted for.** -/
theorem perform_accounted (studio : Studio) (operation : Operation) :
    Accounted studio [(studio.perform operation).1] (studio.perform operation).2 := by
  -- One case per operation: a check counts itself, a write what it wrote, a clear what it took from
  -- the disk, and the rest nothing.
  cases operation with
  | render w fetch s text theme now =>
    exact (renderBy_goes w fetch studio s text theme now).accounted
  | present w fetch s text theme now =>
    have hrender := (renderBy_goes w fetch studio s text theme now).accounted
    rw [← presentBy_snd] at hrender
    exact hrender
  | check s signatures theme =>
    simp only [perform, check, Cache.check]
    cases studio.cache.isCurrent studio.disk s signatures theme <;> exact ⟨rfl, rfl, rfl, rfl, rfl⟩
  | write w p bytes now =>
    simp only [perform]
    rcases hwrite : w.write studio.cache studio.disk p bytes now with ⟨result, c, d⟩
    cases result with
    | error fault =>
      obtain ⟨rfl, -⟩ := Writer.write_error hwrite
      exact ⟨rfl, rfl, rfl, rfl, rfl⟩
    | ok u =>
      obtain rfl := Writer.write_ok hwrite
      exact ⟨rfl, rfl, rfl, rfl, rfl⟩
  | clear s signatures theme now =>
    have hcount := removeFile_count studio.disk (studio.cache.entryPath s signatures theme) now
    simp only [perform, Cache.clear]
    exact accounted_of_evictions hcount
  | invalidate s now => exact accounted_of_evictions (removeMatching_count _ _ _ now)
  | clearEntire now => exact accounted_of_evictions (removeMatching_count _ _ _ now)
  | moveCache directory now => exact ⟨rfl, rfl, rfl, rfl, rfl⟩
  | elsewhere d => exact ⟨rfl, rfl, rfl, rfl, rfl⟩

/-- A render that was asked for nothing has done nothing. -/
theorem eq_of_noFilters {operation : Operation}
    (h : (studio.perform operation).1 = .rendered (.ok .noFilters)) :
    (studio.perform operation).2 = studio := by
  have hrender :
    ∀ {w fetch s text theme now}, (studio.renderBy w fetch s text theme now).1 = .ok .noFilters →
      (studio.renderBy w fetch s text theme now).2 = studio := by
    intro w fetch s text theme now hresult
    have hgoes := renderBy_goes w fetch studio s text theme now
    rw [hresult] at hgoes
    generalize (studio.renderBy w fetch s text theme now).2 = after at hgoes
    cases hgoes with
    | idle => rfl
  cases operation with
  | render w fetch s text theme now =>
    rw [perform]
    exact hrender (Answer.rendered.inj h)
  | present w fetch s text theme now =>
    rw [perform, presentBy_snd]
    exact hrender (Answer.rendered.inj h)
  | _ => exact absurd h (by simp [perform])

end Step

/-! ## A run -/

theorem performAll_accounted (studio : Studio) (operations : List Operation) :
    Accounted studio (studio.performAll operations).1 (studio.performAll operations).2 := by
  induction operations generalizing studio with
  | nil => exact .nil studio
  | cons operation rest ih => exact (studio.perform_accounted operation).append (ih _)

/-- **The counters account for every operation.** Whatever is asked of a new studio, on whatever
disk, what it has counted is what it has answered: its hits are the renders that found an entry and
the checks that did; its misses are two for each render that had to build, whether or not it could,
and one for each check that found nothing; its writes are the entries that were made and the writes
that succeeded; its evictions are the files that went when something was cleared; and it has read
once for each render that had to build. A render that was asked for nothing leaves everything as it
was. -/
theorem counters_account (registry : Registry) (codec : Codec) (vaultRoot directory : Path)
    (d : Disk) (operations : List Operation) :
    let (answers, after) :=
      (ofParts registry codec vaultRoot directory d).performAll operations
    after.cache.tally.hits = answers.countP (·.isCached) + answers.countP (·.isFound) ∧
      after.cache.tally.misses =
        2 * (answers.countP (·.isCreated) + answers.countP (·.isFailed)) +
          answers.countP (·.isMissed) ∧
      after.cache.tally.writes = answers.countP (·.isCreated) + answers.countP (·.isWritten) ∧
      after.cache.tally.evictions = (answers.flatMap (·.files)).length ∧
      after.reads = answers.countP (·.isCreated) + answers.countP (·.isFailed) ∧
      ∀ operation, (after.perform operation).1 = .rendered (.ok .noFilters) →
        (after.perform operation).2 = after := by
  obtain ⟨hhits, hmisses, hwrites, hevictions, hreads⟩ :=
    performAll_accounted (ofParts registry codec vaultRoot directory d) operations
  refine ⟨?_, ?_, ?_, ?_, ?_, fun _ => eq_of_noFilters⟩
  · rw [hhits]
    exact Nat.zero_add _
  · rw [hmisses]
    exact Nat.zero_add _
  · rw [hwrites]
    exact Nat.zero_add _
  · rw [hevictions]
    exact Nat.zero_add _
  · rw [hreads]
    exact Nat.zero_add _

/-- A check before an entry is there, one while it is, and one after it was cleared. -/
example :
    ((ofParts Registry.builtin .container ⟨""⟩ ⟨"c"⟩ Disk.empty).performAll
    [.check ⟨"a.png", "a.png", "a", 0⟩ ["invert"] none,
      .write .atOnce ⟨"c/a_7f071235805f_invert.png"⟩ [1] ⟨1⟩,
      .check ⟨"a.png", "a.png", "a", 0⟩ ["invert"] none, .clearEntire ⟨2⟩,
      .check ⟨"a.png", "a.png", "a", 0⟩ ["invert"] none]).2.cache.tally = ⟨1, 2, 1, 1⟩ := by
  decide +kernel

end Studio

end AltRender

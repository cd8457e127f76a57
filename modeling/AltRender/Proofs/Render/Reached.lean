import AltRender.Proofs.Render.Request

/-!
# `Proofs/Render/Reached` — what a batch has come to

What holds after some of the renders of a batch is that the disk has had entries come in
(`Disk.Stocked`) under the names that are to be made (`Studio.Reached`): those of requests that find
no entry at the start, have something to put there, and can put it there. It is said in terms of the
start and of the requests that were rendered, but not of their order.

A render takes one such studio to another (`Reached.step`), and so does a whole batch
(`Reached.batch`). For the step it has to be known what the request finds. If its entry was not made
so far, it finds, makes and places what it would at the start (`Reached.answer_alone`); if it was,
the request gives its path, whether it makes the entry again or not (`Reached.answer_named`).
-/

set_option autoImplicit false

namespace AltRender

open AltRender.Disk AltRender.Cache

namespace Studio

variable {fetch : Fetch} {start studio after : Studio} {q : Request}
  {now : Instant} {result : Except RenderFault Rendered}

/-! ## What was reached -/

/-- The names that entries were made under. -/
def Named (fetch : Fetch) (start : Studio) (done : List (Instant × Request)) (name : String) :
    Prop :=
  ∃ a ∈ done, start.Creates fetch a.2 ∧ start.nameOf a.2 = name

/-- **What a studio has come to** when some requests were rendered in it. -/
structure Reached (fetch : Fetch) (start : Studio) (done : List (Instant × Request))
    (studio : Studio) : Prop where
  registry : studio.registry = start.registry
  codec : studio.codec = start.codec
  directory : studio.cache.absoluteDirectory = start.cache.absoluteDirectory
  stocked : Stocked start.cache.absoluteDirectory start.disk (∃ a ∈ done, start.Due fetch a.2)
    (start.Named fetch done)
    studio.disk
  entry : ∀ name, start.Named fetch done name → ∃ a ∈ done, start.nameOf a.2 = name ∧
    ∃ contents, start.madeFor fetch a.2 = .ok contents ∧
      studio.disk.seen (start.cache.home start.disk.start ++ [name]) = some (.file contents a.1)

theorem reached_nil (fetch : Fetch) (start : Studio) : start.Reached fetch [] start where
  registry := rfl
  codec := rfl
  directory := rfl
  stocked := by
    refine .untouched ?_ fun name => ?_
    · rintro ⟨a, ha, -⟩
      exact absurd ha List.not_mem_nil
    · rintro ⟨a, ha, -⟩
      exact absurd ha List.not_mem_nil
  entry := by
    rintro name ⟨a, ha, -⟩
    exact absurd ha List.not_mem_nil

section Reached

variable {requests : List Request} {done : List (Instant × Request)}

theorem Reached.chainOf_eq (h : start.Reached fetch done studio) (q : Request) :
    studio.chainOf q = start.chainOf q := by
  rw [chainOf, chainOf, h.registry]

theorem Reached.nameOf_eq (h : start.Reached fetch done studio) (q : Request) :
    studio.nameOf q = start.nameOf q := by
  rw [nameOf, nameOf, h.chainOf_eq]

theorem Reached.pathOf_eq (h : start.Reached fetch done studio) (q : Request) :
    studio.pathOf q = start.pathOf q := by
  rw [pathOf, pathOf, entryPath, entryPath, h.directory, h.chainOf_eq]

theorem Reached.beside (h : start.Reached fetch done studio)
    (horderly : start.Orderly fetch requests) :
    start.disk.Beside (start.cache.home start.disk.start) studio.disk := by
  have hname : ∀ {l : Location}, ¬ start.cache.home start.disk.start <+: l →
      ∀ name, l ≠ start.cache.home start.disk.start ++ [name] := by
    rintro l hl name rfl
    exact hl (List.prefix_append _ _)
  exact ⟨h.stocked.start, fun _ hl => h.stocked.directory hl,
    fun _ _ hl hitem => h.stocked.kept (hname hl) hitem,
    fun _ habove hl => h.stocked.seen_elsewhere horderly.tree horderly.climbs habove (hname hl)⟩

/-- What is read of a source is what was read at the start of any with its identity. -/
theorem Reached.fetch_eq (h : start.Reached fetch done studio)
    (horderly : start.Orderly fetch requests) {q q' : Request} (hq : q ∈ requests)
    (hq' : q' ∈ requests) (hidentity : q.source.identity = q'.source.identity) :
    fetch studio.disk q.source = fetch start.disk q'.source :=
  horderly.steady q.source (List.mem_map.mpr ⟨q, hq, rfl⟩) q'.source
    (List.mem_map.mpr ⟨q', hq', rfl⟩) hidentity _
    (h.beside horderly)

theorem Reached.madeFor_eq (h : start.Reached fetch done studio)
    (horderly : start.Orderly fetch requests) (hq : q ∈ requests) :
    studio.madeFor fetch q = start.madeFor fetch q := by
  rw [madeFor, madeFor, made, made, h.codec, h.chainOf_eq, h.fetch_eq horderly hq hq rfl]

theorem Reached.stow_eq (h : start.Reached fetch done studio)
    (horderly : start.Orderly fetch requests) (q : Request) (now : Instant) :
    (studio.disk.stow studio.cache.absoluteDirectory (studio.nameOf q) now).1 =
      (start.disk.stow start.cache.absoluteDirectory (start.nameOf q) ⟨0⟩).1 := by
  rw [h.directory, h.nameOf_eq]
  exact (h.stocked.stow_eq horderly.tree horderly.climbs (plainName_nameOf horderly.registry q) now
    ⟨0⟩ trivial).1

/-- **Requests for one entry agree on everything that matters for it.** -/
theorem Orderly.same_of_nameOf (h : start.Orderly fetch requests) {q q' : Request}
    (hq : q ∈ requests) (hq' : q' ∈ requests) (hname : start.nameOf q = start.nameOf q') :
    q.source.identity = q'.source.identity ∧
    (start.chainOf q).signatures = (start.chainOf q').signatures ∧
      q.theme = q'.theme := by
  have hunmistakable : ∀ q : Request, ∀ x ∈ (start.chainOf q).signatures, Unmistakable x := by
    intro q
    rw [chainOf, h.registry]
    exact unmistakable_chainOf_builtin q.text
  obtain ⟨hfingerprint, -, hsignatures, htheme⟩ :=
    parts_of_entryName (hunmistakable q) (hunmistakable q') hname
  exact ⟨h.fingerprints q hq q' hq' hfingerprint, hsignatures, htheme⟩

theorem Orderly.isEmpty_of_nameOf (h : start.Orderly fetch requests) {q q' : Request}
    (hq : q ∈ requests) (hq' : q' ∈ requests) (hname : start.nameOf q = start.nameOf q') :
    (start.chainOf q).isEmpty = (start.chainOf q').isEmpty :=
  isEmpty_of_signatures (h.same_of_nameOf hq hq' hname).2.1

theorem Orderly.madeFor_of_nameOf (horderly : start.Orderly fetch requests) {q q' : Request}
    (hq : q ∈ requests) (hq' : q' ∈ requests) (hname : start.nameOf q = start.nameOf q')
    {contents : List UInt8} (hmade : start.madeFor fetch q' = .ok contents) :
    start.madeFor fetch q = .ok contents := by
  have hbuiltin : ∀ q : Request, (start.chainOf q).IsBuiltin := by
    intro q
    rw [chainOf, horderly.registry]
    exact Chain.isBuiltin_chainOf q.text
  obtain ⟨hidentity, hsignatures, htheme⟩ := horderly.same_of_nameOf hq hq' hname
  rw [madeFor, made] at hmade
  rw [madeFor, made, (reached_nil fetch start).fetch_eq horderly hq hq' hidentity, htheme]
  cases hbytes : fetch start.disk q'.source with
  | error cause =>
    rw [hbytes] at hmade
    exact absurd hmade (by simp)
  | ok bytes =>
    rw [hbytes] at hmade
    exact print_congr (hbuiltin q') (hbuiltin q) hsignatures.symm q.source hmade

theorem finds_congr (hpath : studio.pathOf q = start.pathOf q)
    (hlook : ∀ item, studio.disk.look (start.pathOf q) = .ok item ↔
      start.disk.look (start.pathOf q) = .ok item) : studio.finds q = start.finds q := by
  unfold finds isCurrent
  rw [← pathOf, ← pathOf, hpath]
  generalize studio.disk.look (start.pathOf q) = found at hlook ⊢
  generalize start.disk.look (start.pathOf q) = found' at hlook ⊢
  cases found with
  | ok item => rw [(hlook item).mp rfl]
  | error fault =>
    cases found' with
    | ok item => exact absurd ((hlook item).mpr rfl) (by simp)
    | error fault' => rfl

theorem Reached.finds_eq (h : start.Reached fetch done studio)
    (horderly : start.Orderly fetch requests) (hname : ¬ start.Named fetch done (start.nameOf q)) :
    studio.finds q = start.finds q :=
  finds_congr (h.pathOf_eq q) fun _ =>
    h.stocked.look_iff horderly.tree horderly.climbs (plainName_nameOf horderly.registry q) hname

/-- **A request whose entry was not made gives what it gives on its own.** -/
theorem Reached.answer_alone (h : start.Reached fetch done studio)
    (horderly : start.Orderly fetch requests) (hq : q ∈ requests)
    (hname : ¬ start.Named fetch done (start.nameOf q))
    (hserved : Served fetch studio q now result after) : result = start.alone fetch q := by
  rw [hserved.eq_answer, alone, (served horderly.registry fetch q ⟨0⟩).eq_answer, h.pathOf_eq,
    h.chainOf_eq, h.finds_eq horderly hname, h.madeFor_eq horderly hq, h.stow_eq horderly]

theorem answer_of_ok {path : Path} {current : Bool} {made : Except RenderFault (List UInt8)}
    {slot : Except Fault Location} {contents : List UInt8} (hmade : made = .ok contents)
    {l : Location} (hslot : slot = .ok l) :
    (answer path false current made slot).map Rendered.path? = .ok (some path) := by
  subst hmade hslot
  cases current <;> rfl

/-- **A request whose entry was made gives its path,** and would on its own. -/
theorem Reached.answer_named (h : start.Reached fetch done studio)
    (horderly : start.Orderly fetch requests) (hdone : ∀ a ∈ done, a.2 ∈ requests)
    (hq : q ∈ requests) (hname : start.Named fetch done (start.nameOf q))
    (hserved : Served fetch studio q now result after) :
    result.map Rendered.path? = .ok (some (start.pathOf q)) ∧
      (start.alone fetch q).map Rendered.path? = .ok (some (start.pathOf q)) := by
  obtain ⟨a, ha, ⟨⟨hasked, -, contents, hcontents⟩, l, hslot⟩, hsame⟩ := hname
  rw [hsame] at hslot
  have hmade := horderly.madeFor_of_nameOf hq (hdone a ha) hsame.symm hcontents
  have hidle := (horderly.isEmpty_of_nameOf hq (hdone a ha) hsame.symm).trans hasked
  rw [hserved.eq_answer, alone, (served horderly.registry fetch q ⟨0⟩).eq_answer, h.pathOf_eq,
    h.chainOf_eq, h.madeFor_eq horderly hq, h.stow_eq horderly, hidle]
  exact ⟨answer_of_ok hmade hslot, answer_of_ok hmade hslot⟩

/-- What is found for a request whose entry was made depends on the time when it was made last. -/
theorem Reached.finds_named (h : start.Reached fetch done studio)
    (horderly : start.Orderly fetch requests) (hname : start.Named fetch done (start.nameOf q)) :
    ∃ a ∈ done, ∃ bytes, studio.finds q = Cache.isCurrentFor q.source (.file bytes a.1) := by
  obtain ⟨a, ha, -, contents, -, hfile⟩ := h.entry _ hname
  obtain ⟨b, -, ⟨-, l, hslot⟩, hsame⟩ := id hname
  rw [hsame] at hslot
  have hlook := h.stocked.look_named horderly.tree horderly.climbs
    (plainName_nameOf horderly.registry q) hname hslot hfile
  refine ⟨a, ha, contents, ?_⟩
  unfold finds isCurrent
  rw [← pathOf, h.pathOf_eq]
  rw [show start.pathOf q = start.cache.absoluteDirectory.join ⟨start.nameOf q⟩ from rfl, hlook]

theorem named_concat (a : Instant × Request) (name : String) :
    start.Named fetch (done ++ [a]) name ↔
      start.Named fetch done name ∨ start.Creates fetch a.2 ∧ start.nameOf a.2 = name := by
  simp only [Named, List.mem_append, List.mem_singleton, or_and_right, exists_or, exists_eq_left]

theorem named_concat_of {a : Instant × Request}
    (h : start.Creates fetch a.2 → start.Named fetch done (start.nameOf a.2)) :
    start.Named fetch (done ++ [a]) = start.Named fetch done := by
  funext name
  refine propext ((named_concat a name).trans (or_iff_left_of_imp ?_))
  rintro ⟨hcreates, rfl⟩
  exact h hcreates

theorem tried_concat (a : Instant × Request) :
    (∃ b ∈ done ++ [a], start.Due fetch b.2) ↔
      (∃ b ∈ done, start.Due fetch b.2) ∨ start.Due fetch a.2 := by
  simp only [List.mem_append, List.mem_singleton, or_and_right, exists_or, exists_eq_left]

/-- A step that leaves the disk alone. Its request was not due, or its entry was there already. -/
theorem Reached.unchanged (h : start.Reached fetch done studio)
    (hregistry : after.registry = studio.registry) (hcodec : after.codec = studio.codec)
    (hdirectory : after.cache.absoluteDirectory = studio.cache.absoluteDirectory)
    (hdisk : after.disk = studio.disk)
    (hdue : start.Due fetch q → start.Named fetch done (start.nameOf q)) :
    start.Reached fetch (done ++ [(now, q)]) after := by
  have htried : (∃ b ∈ done ++ [(now, q)], start.Due fetch b.2) =
    ∃ b ∈ done, start.Due fetch b.2 := by
    refine propext ((tried_concat _).trans (or_iff_left_of_imp fun hq => ?_))
    obtain ⟨a, ha, hcreates, -⟩ := hdue hq
    exact ⟨a, ha, hcreates.1⟩
  have hnamed : start.Named fetch (done ++ [(now, q)]) = start.Named fetch done :=
    named_concat_of fun hcreates => hdue hcreates.1
  refine ⟨hregistry.trans h.registry, hcodec.trans h.codec, hdirectory.trans h.directory, ?_,
    fun name hname => ?_⟩
  · rw [htried, hnamed, hdisk]
    exact h.stocked
  · rw [hnamed] at hname
    obtain ⟨a, ha, hentry⟩ := h.entry name hname
    rw [hdisk]
    exact ⟨a, List.mem_append_left _ ha, hentry⟩

theorem Reached.due (h : start.Reached fetch done studio) (horderly : start.Orderly fetch requests)
    (hq : q ∈ requests) (hname : ¬ start.Named fetch done (start.nameOf q))
    (hdue : studio.Due fetch q) : start.Due fetch q := by
  rwa [Due, h.chainOf_eq, h.finds_eq horderly hname, h.madeFor_eq horderly hq] at hdue

theorem Reached.tried (h : start.Reached fetch done studio)
    (horderly : start.Orderly fetch requests) (hq : q ∈ requests) (hdue : studio.Due fetch q)
    (now : Instant) : ∃ b ∈ done ++ [(now, q)], start.Due fetch b.2 := by
  rw [tried_concat]
  by_cases hname : start.Named fetch done (start.nameOf q)
  · obtain ⟨a, ha, hcreates, -⟩ := hname
    exact .inl ⟨a, ha, hcreates.1⟩
  · exact .inr (h.due horderly hq hname hdue)

/-- A step whose entry has no place. Directories may have been made for it. -/
theorem Reached.refused (h : start.Reached fetch done studio)
    (horderly : start.Orderly fetch requests) (hq : q ∈ requests) (hdue : studio.Due fetch q)
    {fault : Fault} {e : Disk}
    (hstow :
      studio.disk.stow studio.cache.absoluteDirectory (studio.nameOf q) now = (.error fault, e)) :
    start.Reached fetch (done ++ [(now, q)]) { studio.afterMiss with disk := e } := by
  have hslot := h.stow_eq horderly q now
  rw [hstow] at hslot
  rw [h.directory, h.nameOf_eq] at hstow
  obtain ⟨-, hstocked, hsame⟩ :=
    h.stocked.stow_eq horderly.tree horderly.climbs (plainName_nameOf horderly.registry q)
    now ⟨0⟩ (h.tried horderly hq hdue now)
  rw [hstow] at hstocked hsame
  -- There is no room for the entry now, so there was none at the start.
  have hnamed : start.Named fetch (done ++ [(now, q)]) = start.Named fetch done := by
    refine named_concat_of fun hcreates => ?_
    obtain ⟨-, l, hl⟩ := hcreates
    exact absurd (hslot.trans hl) (by simp)
  refine ⟨h.registry, h.codec, h.directory, hnamed ▸ hstocked, fun name hname => ?_⟩
  rw [hnamed] at hname
  obtain ⟨a, ha, hentry⟩ := h.entry name hname
  -- The directories may have been made even so, but then there are no entries yet.
  rcases hsame with hsame | hnone
  · refine ⟨a, List.mem_append_left _ ha, ?_⟩
    rwa [show (_ : Studio).disk = studio.disk from hsame]
  · exact absurd hname (hnone name)

/-- A step whose entry is placed. -/
theorem Reached.created (h : start.Reached fetch done studio)
    (horderly : start.Orderly fetch requests) (hq : q ∈ requests)
    (hidle : (studio.chainOf q).isEmpty = false) (hfinds : studio.finds q = false)
    {contents : List UInt8} (hmade : studio.madeFor fetch q = .ok contents) {l : Location}
    {e : Disk}
    (hstow : studio.disk.stow studio.cache.absoluteDirectory (studio.nameOf q) now = (.ok l, e))
    (hregistry : after.registry = studio.registry) (hcodec : after.codec = studio.codec)
    (hdirectory : after.cache.absoluteDirectory = studio.cache.absoluteDirectory)
    (hdisk : after.disk = e.place l (.file contents now) now) :
    start.Reached fetch (done ++ [(now, q)]) after := by
  have hslot := h.stow_eq horderly q now
  have htried := h.tried horderly hq ⟨hidle, hfinds, contents, hmade⟩ now
  rw [hstow] at hslot
  rw [h.directory, h.nameOf_eq] at hstow
  -- The new entry joins those that are named, and no other name changes its standing.
  have hnames : ∀ m, start.Named fetch (done ++ [(now, q)]) m ↔
    start.Named fetch done m ∨ m = start.nameOf q := by
    intro m
    rw [named_concat]
    constructor
    · rintro (hold | ⟨-, rfl⟩)
      · exact .inl hold
      · exact .inr rfl
    · rintro (hold | rfl)
      · exact .inl hold
      · refine or_iff_not_imp_left.mpr fun hname => ⟨⟨?_, l, hslot.symm⟩, rfl⟩
        exact h.due horderly hq hname ⟨hidle, hfinds, contents, hmade⟩
  obtain ⟨hstocked, hself, hothers⟩ := h.stocked.place horderly.tree horderly.climbs
    (plainName_nameOf horderly.registry q) hstow htried hnames contents
  rw [← hdisk] at hstocked hself hothers
  refine ⟨hregistry.trans h.registry, hcodec.trans h.codec, hdirectory.trans h.directory, hstocked,
    fun name hname => ?_⟩
  by_cases hsame : name = start.nameOf q
  · subst hsame
    rw [h.madeFor_eq horderly hq] at hmade
    exact ⟨(now, q), List.mem_append_right _ List.mem_cons_self, rfl, contents, hmade, hself⟩
  · have hold := ((hnames name).mp hname).resolve_right hsame
    obtain ⟨a, ha, hname', contents', hmade', hfile⟩ := h.entry name hold
    exact ⟨a, List.mem_append_left _ ha, hname', contents', hmade',
      (hothers name hold hsame).trans hfile⟩

/-- **A step of a batch.** -/
theorem Reached.step (h : start.Reached fetch done studio) (horderly : start.Orderly fetch requests)
    (hq : q ∈ requests) (hserved : Served fetch studio q now result after) :
    start.Reached fetch (done ++ [(now, q)]) after := by
  cases hserved with
  | idle hidle =>
    refine h.unchanged rfl rfl rfl rfl fun hdue => ?_
    rw [h.chainOf_eq, hdue.1] at hidle
    exact absurd hidle (by decide)
  | found _ hfinds =>
    -- A request that is due finds nothing at the start, so what it finds now was made.
    refine h.unchanged rfl rfl rfl rfl fun hdue => ?_
    by_contra hname
    rw [h.finds_eq horderly hname, hdue.2.1] at hfinds
    exact absurd hfinds (by decide)
  | unmade _ _ hmade =>
    refine h.unchanged rfl rfl rfl rfl fun hdue => ?_
    obtain ⟨-, -, contents, hcontents⟩ := hdue
    rw [h.madeFor_eq horderly hq, hcontents] at hmade
    exact absurd hmade (by simp)
  | @refused contents _ _ hidle hfinds hmade hstow =>
    exact h.refused horderly hq ⟨hidle, hfinds, contents, hmade⟩ hstow
  | created hidle hfinds hmade hstow =>
    exact h.created horderly hq hidle hfinds hmade hstow rfl rfl rfl rfl

variable {rest : List (Instant × Request)}

theorem Reached.served (h : start.Reached fetch done studio)
    (horderly : start.Orderly fetch requests) (q : Request) (now : Instant) :
    Served fetch studio q now (studio.render fetch q.source q.text q.theme now).1
      (studio.render fetch q.source q.text q.theme now).2 :=
  Studio.served (h.registry.trans horderly.registry) fetch q now

/-- **A batch.** -/
theorem Reached.batch (h : start.Reached fetch done studio)
    (horderly : start.Orderly fetch requests) (hrest : ∀ a ∈ rest, a.2 ∈ requests) :
    start.Reached fetch (done ++ rest) (studio.batch fetch rest).2 := by
  induction rest generalizing done studio with
  | nil => rwa [List.append_nil]
  | cons a rest ih =>
    obtain ⟨now, q⟩ := a
    have hstep := h.step horderly (hrest _ List.mem_cons_self) (h.served horderly q now)
    have hlast := ih hstep fun b hb => hrest b (List.mem_cons_of_mem _ hb)
    rw [List.append_assoc] at hlast
    exact hlast

end Reached

end Studio

end AltRender

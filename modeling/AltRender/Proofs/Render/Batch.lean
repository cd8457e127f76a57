import AltRender.Proofs.Render.Reached

/-!
# `Proofs/Render/Batch` — the order of a batch

The renders of a batch meet in the cache: the entry of one is found by the next, and the directories
made for one are there for the others. Still each gives what it would give on its own at the start,
but for whether the entry was made or found (`Studio.Reached.answers`), and what is in the cache at
the end depends on which renders there were and not on their order. So a batch may be run in any
order (`Studio.batch_perm`).

How often an entry is made does depend on the clock. If it is never behind the sources, an entry
that was made is found from then on, and each that is to be made is made once
(`Studio.Reached.creations_eq`). If it is, a request with a later time makes the entry again, and
then the order can be told from the answers (`Studio.created_twice_of_late`).
-/

set_option autoImplicit false

namespace AltRender

open AltRender.Disk AltRender.Cache

namespace Studio

variable {fetch : Fetch} {start studio after : Studio} {q : Request}
  {now : Instant} {result : Except RenderFault Rendered}

/-! ## The answers of a batch -/

section Answers

variable {requests : List Request} {done rest : List (Instant × Request)}

theorem pathOf_of_nameOf {q q' : Request} (h : start.nameOf q = start.nameOf q') :
    start.pathOf q = start.pathOf q' := by
  change start.cache.absoluteDirectory.join ⟨start.nameOf q⟩ =
    start.cache.absoluteDirectory.join ⟨start.nameOf q'⟩
  rw [h]

def sharing (start : Studio) (requests : List Request) (p : Path) : Nat :=
  requests.countP fun q => start.pathOf q = p

/-- **Each request of a batch gives what it would give on its own,** but one whose entry others are
for may find it where it would make it, or make it where it would find it. -/
theorem Reached.answers (h : start.Reached fetch done studio)
    (horderly : start.Orderly fetch requests) (hdone : ∀ a ∈ done, a.2 ∈ requests)
    (hrest : ∀ a ∈ rest, a.2 ∈ requests) (hmem : (q, result) ∈ (studio.batch fetch rest).1) :
    result = start.alone fetch q ∨
      result.map Rendered.path? = .ok (some (start.pathOf q)) ∧
        (start.alone fetch q).map Rendered.path? = .ok (some (start.pathOf q)) ∧
        2 ≤ start.sharing ((done ++ rest).map Prod.snd) (start.pathOf q) := by
  induction rest generalizing done studio with
  | nil => exact absurd hmem List.not_mem_nil
  | cons a rest ih =>
    obtain ⟨now, q'⟩ := a
    have hq' := hrest _ List.mem_cons_self
    have hserved := h.served horderly q' now
    have hstep := h.step horderly hq' hserved
    rcases List.mem_cons.mp hmem with heq | hmem
    · obtain ⟨rfl, rfl⟩ := Prod.mk.inj heq
      -- Only a request whose entry was made before can give something else, and one that made it is
      -- before it.
      by_cases hname : start.Named fetch done (start.nameOf q)
      · obtain ⟨hresult, halone⟩ := h.answer_named horderly hdone hq' hname hserved
        refine .inr ⟨hresult, halone, ?_⟩
        obtain ⟨b, hb, -, hsame⟩ := hname
        have hbefore : 0 < start.sharing (done.map Prod.snd) (start.pathOf q) :=
          List.countP_pos_iff.mpr ⟨b.2, List.mem_map.mpr ⟨b, hb, rfl⟩,
            decide_eq_true (pathOf_of_nameOf hsame)⟩
        have hself : 0 < start.sharing (((now, q) :: rest).map Prod.snd) (start.pathOf q) :=
          List.countP_pos_iff.mpr ⟨q, List.mem_cons_self, decide_eq_true rfl⟩
        rw [List.map_append, sharing, List.countP_append]
        exact Nat.add_le_add hbefore hself
      · exact .inl (h.answer_alone horderly hq' hname hserved)
    · have hothers := ih hstep (by
        intro b hb
        rcases List.mem_append.mp hb with hb | hb
        · exact hdone b hb
        · exact List.mem_singleton.mp hb ▸ hq') (fun b hb =>
            hrest b (List.mem_cons_of_mem _ hb)) hmem
      rwa [List.append_assoc] at hothers

def creations (p : Path) (answers : List (Request × Except RenderFault Rendered)) : Nat :=
  (answers.map Prod.snd).count (.ok (.created p))

/-- Whether an entry is to be made at a path. -/
def Makes (fetch : Fetch) (start : Studio) (requests : List (Instant × Request)) (p : Path) :
    Prop :=
  ∃ a ∈ requests, start.Creates fetch a.2 ∧ start.pathOf a.2 = p

theorem nameOf_of_pathOf (horderly : start.Orderly fetch requests) {q q' : Request}
    (h : start.pathOf q = start.pathOf q') : start.nameOf q = start.nameOf q' := by
  have hcomponents : ∀ q, (start.pathOf q).components =
      start.cache.absoluteDirectory.components ++ [.name (start.nameOf q)] :=
    fun q => Path.components_join _ (plainName_nameOf horderly.registry q)
  have hsame := (hcomponents q).symm.trans ((congrArg Path.components h).trans (hcomponents q'))
  exact Component.name.inj (List.singleton_inj.mp (List.append_cancel_left hsame))

theorem named_iff_makes (horderly : start.Orderly fetch requests) (q : Request) :
    start.Named fetch done (start.nameOf q) ↔ start.Makes fetch done (start.pathOf q) := by
  constructor
  · rintro ⟨a, ha, hcreates, hname⟩
    exact ⟨a, ha, hcreates, pathOf_of_nameOf hname⟩
  · rintro ⟨a, ha, hcreates, hpath⟩
    exact ⟨a, ha, hcreates, nameOf_of_pathOf horderly hpath⟩

theorem creates_iff_alone (horderly : start.Orderly fetch requests) (q : Request) :
    start.Creates fetch q ↔ start.alone fetch q = .ok (.created (start.pathOf q)) := by
  have hserved := Studio.served horderly.registry fetch q ⟨0⟩
  constructor
  · rintro ⟨⟨hidle, hfinds, contents, hmade⟩, l, hslot⟩
    rw [alone, hserved.eq_answer]
    simp only [answer, hidle, hfinds, hmade, hslot, Bool.false_eq_true, if_false, Except.bind,
      Except.mapError, Except.map]
  · intro halone
    rw [← alone, halone] at hserved
    generalize (start.render fetch q.source q.text q.theme ⟨0⟩).2 = after at hserved
    cases hserved with
    | created hidle hfinds hmade hstow => exact ⟨⟨hidle, hfinds, _, hmade⟩, _, by rw [hstow]⟩

theorem Served.created_path {p : Path} (h : Served fetch studio q now (.ok (.created p)) after) :
    p = studio.pathOf q ∧ studio.finds q = false := by
  cases h with
  | created _ hfinds _ _ => exact ⟨rfl, hfinds⟩

/-- **Whether an entry is made by a step,** if entries are always made in time. -/
theorem Reached.created_iff (h : start.Reached fetch done studio)
    (horderly : start.Orderly fetch requests) (hq : q ∈ requests)
    (hclock : ∀ a ∈ done, ∀ bytes, Cache.isCurrentFor q.source (.file bytes a.1) = true)
    (hserved : Served fetch studio q now result after) (p : Path) :
    result = .ok (.created p) ↔
      ¬ start.Makes fetch done p ∧ start.Creates fetch q ∧ start.pathOf q = p := by
  -- What was made is in time and is found; before that the request gives what it gives on its own.
  by_cases hname : start.Named fetch done (start.nameOf q)
  · obtain ⟨a, ha, bytes, hfinds⟩ := h.finds_named horderly hname
    rw [hclock a ha bytes] at hfinds
    constructor
    · rintro rfl
      rw [hserved.created_path.2] at hfinds
      exact absurd hfinds (by decide)
    · rintro ⟨hmakes, -, rfl⟩
      exact absurd ((named_iff_makes horderly q).mp hname) hmakes
  · have halone := h.answer_alone horderly hq hname hserved
    constructor
    · rintro rfl
      obtain ⟨rfl, -⟩ := hserved.created_path
      rw [h.pathOf_eq] at halone ⊢
      exact ⟨fun hmakes => hname ((named_iff_makes horderly q).mpr hmakes),
        (creates_iff_alone horderly q).mpr halone.symm,
        rfl⟩
    · rintro ⟨-, hcreates, rfl⟩
      rw [halone, (creates_iff_alone horderly q).mp hcreates]

theorem makes_append (done rest : List (Instant × Request)) (p : Path) :
    start.Makes fetch (done ++ rest) p ↔ start.Makes fetch done p ∨ start.Makes fetch rest p := by
  simp only [Makes, List.mem_append, or_and_right, exists_or]

theorem makes_singleton (a : Instant × Request) (p : Path) :
    start.Makes fetch [a] p ↔ start.Creates fetch a.2 ∧ start.pathOf a.2 = p := by
  simp only [Makes, List.mem_singleton, exists_eq_left]

theorem creations_cons (p : Path) (q : Request) (result : Except RenderFault Rendered)
    (answers : List (Request × Except RenderFault Rendered)) :
    creations p ((q, result) :: answers) = creations p answers + if result = .ok (.created p) then 1
    else 0 := by
  rw [creations, List.map_cons, List.count_cons, creations]
  simp only [beq_iff_eq]

section Clock

variable
  (hclock : ∀ a ∈ done ++ rest, ∀ q ∈ requests, ∀ bytes,
    Cache.isCurrentFor q.source (.file bytes a.1) = true)
include hclock

/-- An entry that was made is not made again. -/
theorem Reached.creations_of_makes (h : start.Reached fetch done studio)
    (horderly : start.Orderly fetch requests) (hrest : ∀ a ∈ rest, a.2 ∈ requests) {p : Path}
    (hmakes : start.Makes fetch done p) : creations p (studio.batch fetch rest).1 = 0 := by
  induction rest generalizing done studio with
  | nil => rfl
  | cons a rest ih =>
    obtain ⟨now, q⟩ := a
    have hq := hrest _ List.mem_cons_self
    have hserved := h.served horderly q now
    have hcreated := h.created_iff horderly hq
      (fun b hb bytes => hclock b (List.mem_append_left _ hb) q hq bytes) hserved p
    have hothers := ih (by rwa [List.append_assoc]) (h.step horderly hq hserved)
      (fun b hb => hrest b (List.mem_cons_of_mem _ hb)) ((makes_append done _ p).mpr (.inl hmakes))
    rw [batch_cons, creations_cons]
    rw [if_neg fun hmade => (hcreated.mp hmade).1 hmakes, hothers]

open scoped Classical in
/-- **An entry that is to be made is made once.** -/
theorem Reached.creations_eq (h : start.Reached fetch done studio)
    (horderly : start.Orderly fetch requests) (hrest : ∀ a ∈ rest, a.2 ∈ requests) {p : Path}
    (hmakes : ¬ start.Makes fetch done p) :
    creations p (studio.batch fetch rest).1 = if start.Makes fetch rest p then 1 else 0 := by
  induction rest generalizing done studio with
  | nil =>
    rw [if_neg]
    · rfl
    · rintro ⟨a, ha, -⟩
      exact absurd ha List.not_mem_nil
  | cons a rest ih =>
    obtain ⟨now, q⟩ := a
    have hq := hrest _ List.mem_cons_self
    have hserved := h.served horderly q now
    have hstep := h.step horderly hq hserved
    have hclock' : ∀ b ∈ (done ++ [(now, q)]) ++ rest, ∀ q ∈ requests, ∀ bytes,
        Cache.isCurrentFor q.source (.file bytes b.1) = true := by rwa [List.append_assoc]
    have hrest' : ∀ b ∈ rest, b.2 ∈ requests := fun b hb => hrest b (List.mem_cons_of_mem _ hb)
    have hcreated := h.created_iff horderly hq
      (fun b hb bytes => hclock b (List.mem_append_left _ hb) q hq bytes) hserved p
    have hnow := @makes_singleton fetch start (now, q) p
    rw [batch_cons, creations_cons]
    -- Whoever makes the entry first creates it; from there on it is made already, and the rest
    -- creates nothing at that path.
    by_cases hmade : start.Makes fetch [(now, q)] p
    · have hall : start.Makes fetch ((now, q) :: rest) p :=
        (makes_append [(now, q)] rest p).mpr (.inl hmade)
      rw [if_pos (hcreated.mpr ⟨hmakes, hnow.mp hmade⟩), if_pos hall,
        hstep.creations_of_makes hclock' horderly hrest' ((makes_append done _ p).mpr (.inr hmade))]
    · have hall : start.Makes fetch ((now, q) :: rest) p ↔ start.Makes fetch rest p :=
        (makes_append [(now, q)] rest p).trans (or_iff_right hmade)
      have hstill : ¬ start.Makes fetch (done ++ [(now, q)]) p := fun hboth =>
        ((makes_append done _ p).mp hboth).elim hmakes hmade
      rw [if_neg fun hresult => hmade (hnow.mpr (hcreated.mp hresult).2),
        ih hclock' hstep hrest' hstill]
      simp only [hall, Nat.add_zero]

end Clock

end Answers

/-! ## The order of a batch -/

section Order

variable {first second : List (Instant × Request)}

theorem exists_perm (h : (first.map Prod.snd).Perm (second.map Prod.snd)) (P : Request → Prop) :
    (∃ a ∈ first, P a.2) ↔ ∃ a ∈ second, P a.2 := by
  have hmap : ∀ requests : List (Instant × Request), (∃ a ∈ requests, P a.2) ↔
    ∃ q ∈ requests.map Prod.snd, P q := by
    intro requests
    constructor
    · rintro ⟨a, ha, hP⟩
      exact ⟨a.2, List.mem_map.mpr ⟨a, ha, rfl⟩, hP⟩
    · rintro ⟨q, hq, hP⟩
      obtain ⟨a, ha, rfl⟩ := List.mem_map.mp hq
      exact ⟨a, ha, hP⟩
  rw [hmap, hmap]
  exact exists_congr fun q => and_congr_left fun _ => h.mem_iff

/-- What stands at a location, apart from when it was changed. -/
def timeless (d : Disk) (l : Location) : Option Item := (d.item? l).map (Item.withChanged ⟨0⟩)

theorem timeless_eq (d : Disk) (l : Location) :
    timeless d l = (d.seen l).map (Item.withChanged ⟨0⟩) := by
  rw [timeless, seen, Option.map_map]
  congr 1
  funext item
  cases item <;> rfl

/-- **What is on the disk after a batch does not depend on its order.** -/
theorem timeless_batch (h : studio.Orderly fetch (first.map Prod.snd))
    (hperm : (first.map Prod.snd).Perm (second.map Prod.snd)) (l : Location) :
    timeless (studio.batch fetch second).2.disk l =
      timeless (studio.batch fetch first).2.disk l := by
  have hfirst : ∀ a ∈ first, a.2 ∈ first.map Prod.snd := fun _ ha => List.mem_map_of_mem ha
  have hsecond : ∀ a ∈ second, a.2 ∈ first.map Prod.snd :=
    fun _ ha => hperm.mem_iff.mpr (List.mem_map_of_mem ha)
  have hreached := (reached_nil fetch studio).batch h hfirst
  have hreached' := (reached_nil fetch studio).batch h hsecond
  rw [List.nil_append] at hreached hreached'
  have hnamed : studio.Named fetch second = studio.Named fetch first := by
    funext name
    exact propext (exists_perm hperm fun q => studio.Creates fetch q ∧ studio.nameOf q = name).symm
  have hstocked := hreached'.stocked
  rw [hnamed, propext (exists_perm hperm (studio.Due fetch)).symm] at hstocked
  rw [timeless_eq, timeless_eq]
  by_cases hl : ∃ name, studio.Named fetch first name ∧
      l = studio.cache.absoluteDirectory.destination studio.disk.start ++ [name]
  · obtain ⟨name, hname, rfl⟩ := hl
    obtain ⟨a, ha, hnameA, contents, hmade, hfile⟩ := hreached.entry name hname
    obtain ⟨b, hb, hnameB, contents', hmade', hfile'⟩ := hreached'.entry name (hnamed ▸ hname)
    -- Both files hold what is made for the one request, which is what is made for the other.
    have hsame := h.madeFor_of_nameOf (hfirst a ha) (hsecond b hb) (hnameA.trans hnameB.symm) hmade'
    obtain rfl := Except.ok.inj (hmade.symm.trans hsame)
    rw [home] at hfile hfile'
    rw [hfile, hfile']
    rfl
  · rw [hreached.stocked.seen_eq hstocked fun name hname heq => hl ⟨name, hname, heq⟩]

/-- **The order of a batch does not matter.** Whatever the times of two runs, each request gives the
same, or the entry at the path that it shares with another request; if entries are made in time for
all sources, each is made as often in both; and in the end the same is on the disk, times aside. -/
theorem batch_perm (h : studio.Orderly fetch (first.map Prod.snd))
    (hperm : (first.map Prod.snd).Perm (second.map Prod.snd)) :
    (∀ q r r', (q, r) ∈ (studio.batch fetch first).1 → (q, r') ∈ (studio.batch fetch second).1 →
      r = r' ∨ ∃ p, r.map Rendered.path? = .ok (some p) ∧ r'.map Rendered.path? = .ok (some p) ∧
        2 ≤ studio.sharing (first.map Prod.snd) p) ∧
    ((∀ a ∈ first ++ second, ∀ b ∈ first, Cache.isCurrentFor b.2.source (.file [] a.1) = true) →
      ∀ p, creations p (studio.batch fetch second).1 = creations p (studio.batch fetch first).1) ∧
    ∀ l, timeless (studio.batch fetch second).2.disk l =
      timeless (studio.batch fetch first).2.disk l := by
  have hfirst : ∀ a ∈ first, a.2 ∈ first.map Prod.snd := fun _ ha => List.mem_map_of_mem ha
  have hsecond : ∀ a ∈ second, a.2 ∈ first.map Prod.snd :=
    fun _ ha => hperm.mem_iff.mpr (List.mem_map_of_mem ha)
  have hnil : ∀ a ∈ ([] : List (Instant × Request)), a.2 ∈ first.map Prod.snd :=
    fun a ha => absurd ha List.not_mem_nil
  -- Each run is set against what its requests would give on their own.
  have hsharing :
    ∀ p, studio.sharing (second.map Prod.snd) p = studio.sharing (first.map Prod.snd) p :=
    fun p => (hperm.countP_eq _).symm
  refine ⟨fun q r r' hr hr' => ?_, fun hclock p => ?_, timeless_batch h hperm⟩
  · rcases (reached_nil fetch studio).answers h hnil hfirst hr with rfl | ⟨hpath, halone, hcount⟩
    · rcases (reached_nil fetch studio).answers h hnil hsecond hr' with
        rfl | ⟨hpath', halone', hcount'⟩
      · exact .inl rfl
      · exact .inr ⟨_, halone', hpath', hsharing _ ▸ hcount'⟩
    · rcases (reached_nil fetch studio).answers h hnil hsecond hr' with rfl | ⟨hpath', -, -⟩
      · exact .inr ⟨_, hpath, halone, hcount⟩
      · exact .inr ⟨_, hpath, hpath', hcount⟩
  · have hnone : ¬ studio.Makes fetch [] p := by
      rintro ⟨a, ha, -⟩
      exact absurd ha List.not_mem_nil
    have hintime : ∀ a ∈ first ++ second, ∀ q ∈ first.map Prod.snd, ∀ bytes,
        Cache.isCurrentFor q.source (.file bytes a.1) = true := by
      intro a ha q hq bytes
      obtain ⟨b, hb, rfl⟩ := List.mem_map.mp hq
      exact hclock a ha b hb
    rw [(reached_nil fetch studio).creations_eq
      (fun a ha => hintime a (List.mem_append_right _ ha)) h hsecond hnone,
      (reached_nil fetch studio).creations_eq
        (fun a ha => hintime a (List.mem_append_left _ ha)) h hfirst hnone]
    have hmakes : studio.Makes fetch second p ↔ studio.Makes fetch first p :=
      (exists_perm hperm fun q => studio.Creates fetch q ∧ studio.pathOf q = p).symm
    by_cases hmade : studio.Makes fetch first p
    · rw [if_pos hmade, if_pos (hmakes.mpr hmade)]
    · rw [if_neg hmade, if_neg fun hsecond => hmade (hmakes.mp hsecond)]

end Order

def timed (requests : List Request) : List (Instant × Request) :=
  requests.mapIdx fun n q => (⟨(n + 1) * 1000000⟩, q)

/-- Two requests for one entry, one for another, and one for a source that is missing. -/
def fourRequests : List Request :=
  [⟨.atPath ⟨"a.png"⟩ ⟨0⟩, "@invert", none⟩, ⟨.atPath ⟨"a.png"⟩ ⟨0⟩, "@darkmode", none⟩,
    ⟨.atPath ⟨"b.png"⟩ ⟨0⟩, "@invert", none⟩,
    ⟨.atPath ⟨"a.png"⟩ ⟨1000000⟩, "@nothing, then @invert", none⟩]

theorem isTree_oneSource : oneSource.IsTree := by
  intro l hl
  by_cases hnil : l = []
  · subst hnil
    rfl
  · by_cases hsource : l = ["a.png"]
    · subst hsource
      rfl
    · rw [seen_oneSource hnil hsource] at hl
      exact absurd hl (by decide)

theorem orderly_small {requests : List Request}
    (hfingerprints : ∀ q ∈ requests, ∀ q' ∈ requests, fingerprint q.source = fingerprint q'.source →
      q.source.identity = q'.source.identity)
    (hremote : ∀ s ∈ requests.map Request.source, ∀ s' ∈ requests.map Request.source,
      s.identity = s'.identity → s.isRemote = s'.isRemote)
    (hout : ∀ s ∈ requests.map Request.source, s.isRemote = false →
      ∀ l ∈ waypoints [] (Path.join ⟨""⟩ ⟨s.identity⟩), ¬ ["c"] <+: l ∧
        (l <+: ["c"] → (oneSource.seen l).isSome = true)) :
    (small ⟨"c"⟩ []).Orderly (Command.localFetch ⟨""⟩) requests := by
  refine ⟨rfl, isTree_oneSource, fun front hfront => ?_, hfingerprints,
    steady_localFetch hremote hout⟩
  have hup : Component.up ∈ (⟨"c"⟩ : Disk.Path).components := hfront.subset (by simp)
  exact absurd hup (by decide +kernel)

theorem batch_perm_four :
    (∀ q r r', (q, r) ∈ ((small ⟨"c"⟩ []).batch (Command.localFetch ⟨""⟩) (timed fourRequests)).1 →
      (q, r') ∈ ((small ⟨"c"⟩ []).batch (Command.localFetch ⟨""⟩) (timed fourRequests.reverse)).1 →
      r = r' ∨ ∃ p, r.map Rendered.path? = .ok (some p) ∧ r'.map Rendered.path? = .ok (some p) ∧
        2 ≤ (small ⟨"c"⟩ []).sharing fourRequests p) ∧
    (∀ p,
      creations p
        ((small ⟨"c"⟩ []).batch (Command.localFetch ⟨""⟩) (timed fourRequests.reverse)).1 =
      creations p ((small ⟨"c"⟩ []).batch (Command.localFetch ⟨""⟩) (timed fourRequests)).1) ∧
    ∀ l, timeless
      ((small ⟨"c"⟩ []).batch (Command.localFetch ⟨""⟩) (timed fourRequests.reverse)).2.disk l =
      timeless
        ((small ⟨"c"⟩ []).batch (Command.localFetch ⟨""⟩) (timed fourRequests)).2.disk l := by
  have hperm :
    ((timed fourRequests).map Prod.snd).Perm ((timed fourRequests.reverse).map Prod.snd) := by
    decide +kernel
  have hclock : ∀ a ∈ timed fourRequests ++ timed fourRequests.reverse, ∀ b ∈ timed fourRequests,
      Cache.isCurrentFor b.2.source (.file [] a.1) = true := by
    decide +kernel
  have horderly :
    (small ⟨"c"⟩ []).Orderly (Command.localFetch ⟨""⟩) ((timed fourRequests).map Prod.snd) :=
    orderly_small (by decide +kernel) (by decide +kernel) (by decide +kernel)
  obtain ⟨hanswers, hcreations, hdisk⟩ := batch_perm horderly hperm
  exact ⟨hanswers, hcreations hclock, hdisk⟩

/-- Two requests for one entry, the source of the first one changed after any entry of the batch is
written. -/
def lateRequests : List Request :=
  [⟨.atPath ⟨"a.png"⟩ ⟨1000000000⟩, "@invert", none⟩, ⟨.atPath ⟨"a.png"⟩ ⟨0⟩, "@invert", none⟩]

/-- **A source ahead of the clock has its entry made each time,** so the condition on the clock is
needed: the entry that the first request makes is found by the second, but not the other way
around. -/
theorem created_twice_of_late :
    (small ⟨"c"⟩ []).Orderly (Command.localFetch ⟨""⟩) lateRequests ∧
      ((small ⟨"c"⟩ []).batch (Command.localFetch ⟨""⟩) (timed lateRequests)).1.map Prod.snd =
        [.ok (.created ⟨"c/a_7f071235805f_invert.png"⟩),
          .ok (.cached ⟨"c/a_7f071235805f_invert.png"⟩)] ∧
      ((small ⟨"c"⟩ []).batch (Command.localFetch ⟨""⟩) (timed lateRequests.reverse)).1.map
        Prod.snd =
        [.ok (.created ⟨"c/a_7f071235805f_invert.png"⟩),
          .ok (.created ⟨"c/a_7f071235805f_invert.png"⟩)] := by
  refine ⟨orderly_small (by decide +kernel) (by decide +kernel) (by decide +kernel), ?_, ?_⟩
  · decide +kernel
  · decide +kernel

def twoRequests : List Request :=
  [⟨.atPath ⟨"a.png"⟩ ⟨0⟩, "@invert", none⟩, ⟨.atPath ⟨"a.png"⟩ ⟨0⟩, "@darkmode", none⟩]

theorem steady_detour : (Command.localFetch ⟨""⟩).Steady ((small detour []).cache.home []) oneSource
    (twoRequests.map Request.source) :=
  steady_localFetch (by decide +kernel) (by decide +kernel)

/-- **The way to the cache matters here too.** If the path of the cache goes up from a directory
that is not there, in the place of an entry, that directory is made by the first request. If it is
the one for the entry, it fails; if another comes first, the directory is taken for the entry. -/
theorem batch_of_detour :
    (small detour []).registry = Registry.builtin ∧ (small detour []).disk.IsTree ∧
      (Command.localFetch ⟨""⟩).Steady ((small detour []).cache.home (small detour []).disk.start)
        (small detour []).disk
        (twoRequests.map Request.source) ∧
      ((small detour []).batch (Command.localFetch ⟨""⟩) (timed twoRequests)).1.map Prod.snd =
        [.error (.cacheWrite (detour.join ⟨"a_7f071235805f_invert.png"⟩) .isADirectory),
          .ok (.created (detour.join ⟨"a_7f071235805f_darkmode.png"⟩))] ∧
      ((small detour []).batch (Command.localFetch ⟨""⟩) (timed twoRequests.reverse)).1.map
        Prod.snd =
        [.ok (.created (detour.join ⟨"a_7f071235805f_darkmode.png"⟩)),
          .ok (.cached (detour.join ⟨"a_7f071235805f_invert.png"⟩))] := by
  refine ⟨rfl, isTree_oneSource, steady_detour, by decide +kernel, by decide +kernel⟩

end Studio

end AltRender

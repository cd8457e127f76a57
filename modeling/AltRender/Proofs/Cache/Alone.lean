import AltRender.Cache.Traffic
import AltRender.Proofs.Cache.Change
import AltRender.Proofs.Cache.Traffic
import Mathlib.Logic.Relation

/-!
# `Proofs/Cache/Alone` — a write and a clear that have the disk to themselves

What holds however the steps of writes and clears mix says something of `writeStaged` and of the
clears only if those are among the runs. They are: whatever is refused of a write on its way, its
steps one after the other come to the same result and the same disk (`exists_acts_writeStaged`), and
a clear is the names of a directory looked at one after the other (`run_sweeps`).

A write is followed part by part, in the order in which it makes its steps: the directories one by
one, the temporary file, the appends, the rename, and the removal of the temporary file after a
failure. Each part leads from one progress of the write to the next (`Leads`), and parts that follow
each other lead from the first to the last. Faults are steps as well: one that is refused leads to
the same fault and the same disk.
-/

set_option autoImplicit false

namespace AltRender.Cache

open AltRender.Disk

namespace Delivery

variable {j : Delivery} {now : Instant} {d d' : Disk} {r : Refusals}

/-! ## From step to step -/

/-- Some steps of a write lead from one progress and disk to another. -/
def Leads (j : Delivery) (now : Instant) : Progress × Disk → Progress × Disk → Prop :=
  Relation.ReflTransGen fun e e' => ∃ act, j.advance now e.2 e.1 act = e'

theorem leads_one {e e' : Progress × Disk} (act : Act) (h : j.advance now e.2 e.1 act = e') :
    Leads j now e e' :=
  .single ⟨act, h⟩

/-- **What steps lead to is the end of a run** in which nobody else makes one. -/
theorem Leads.exists_run {e e' : Progress × Disk} (h : Leads j now e e') :
    ∃ acts : List Act,
      (⟨e.2, [(j, e.1)]⟩ : Traffic).run (acts.map fun act => (now, .deliver 0 act)) =
        ⟨e'.2, [(j, e'.1)]⟩ := by
  induction h using Relation.ReflTransGen.head_induction_on with
  | refl => exact ⟨[], rfl⟩
  | head hstep _ ih =>
    obtain ⟨act, rfl⟩ := hstep
    obtain ⟨acts, hrun⟩ := ih
    exact ⟨act :: acts, hrun⟩

/-! ## Directories -/

/-- One directory made or not. -/
theorem leads_make {p : Path} (hp : p ∈ j.directory.ancestors)
    (hmake : makeUnless r now d p = .ok d') : Leads j now (.making, d) (.making, d') := by
  refine leads_one (.make p) ?_
  simp only [advance, if_pos hp, unlessRefused_ok hmake]

theorem leads_makeAllBy {paths : List Path} (hpaths : ∀ p ∈ paths, p ∈ j.directory.ancestors)
    (d : Disk) : Leads j now (.making, d) (.making, (makeAllBy (makeUnless r now) paths d).2) := by
  induction paths generalizing d with
  | nil => exact .refl
  | cons p parents ih =>
    have hp := hpaths p List.mem_cons_self
    have hparents := ih (fun q hq => hpaths q (List.mem_cons_of_mem p hq)) d
    rw [makeAllBy]
    split
    · exact .refl
    · split
      · rename_i hmake
        exact leads_make hp hmake
      · -- The parents come first, and then the directory once more.
        split
        · rename_i hmade
          rwa [hmade] at hparents
        · rename_i d₁ hmade
          rw [hmade] at hparents
          split
          · rename_i hmake
            exact hparents.trans (leads_make hp hmake)
          · exact hparents
      · exact .refl

/-! ## The temporary file -/

theorem isFile_of_create (h : d.create j.temporaryPath now = .ok d') :
    d'.isFile j.temporaryPath = true := by
  obtain ⟨haltered, hnone, t, name, hslot⟩ := create_ok h
  have hslot' :=
    hslot.mono haltered.start fun _ hk => haltered.isDirectoryAt_mono (by rw [hnone]; simp) hk
  have hself := haltered.seen_self
  rw [← haltered.start] at hself
  rw [isFile, hslot'.look hself]
  rfl

theorem leads_append (hfile : d.isFile j.temporaryPath = true) (n : Nat)
    (hwrite : d.write j.temporaryPath (j.bytes.take n) now = .ok d') :
    Leads j now (.filling [] j.bytes, d) (.filling (j.bytes.take n) (j.bytes.drop n), d') := by
  refine leads_one (.append n) ?_
  simp only [advance, append, List.nil_append, hfile, if_true, hwrite]

theorem leads_fail (taken left : List UInt8) (d : Disk) (fault : Fault) :
    Leads j now (.filling taken left, d) (.discarding fault, d) :=
  leads_one (.fail fault) (by cases left <;> rfl)

/-- A file filled in one go. -/
theorem leads_filled (hfile : d.isFile j.temporaryPath = true)
    (h : fill r d j.temporaryPath j.bytes now = (.ok (), d')) :
    Leads j now (.filling [] j.bytes, d) (.filling j.bytes [], d') := by
  unfold fill at h
  split at h
  · split at h
    · rename_i d₁ hwrite
      obtain ⟨-, rfl⟩ := Prod.mk.inj h
      have hall := leads_append hfile j.bytes.length (by rwa [List.take_length])
      rwa [List.take_length, List.drop_length] at hall
    · exact absurd h (by simp)
  · split at h <;> exact absurd h (by simp)

/-- A file that could not be filled, or only as far as bytes are taken. -/
theorem leads_unfilled (hfile : d.isFile j.temporaryPath = true) {fault : Fault}
    (h : fill r d j.temporaryPath j.bytes now = (.error fault, d')) :
    Leads j now (.filling [] j.bytes, d) (.discarding fault, d') := by
  unfold fill at h
  split at h
  · split at h
    · exact absurd h (by simp)
    · obtain ⟨-, rfl⟩ := Prod.mk.inj h
      exact leads_fail [] j.bytes d _
  · rename_i n refusal _
    split at h
    · rename_i d₁ hwrite
      obtain ⟨-, rfl⟩ := Prod.mk.inj h
      exact (leads_append hfile n hwrite).trans (leads_fail _ _ d₁ _)
    · obtain ⟨-, rfl⟩ := Prod.mk.inj h
      exact leads_fail [] j.bytes d _

theorem leads_discard (d : Disk) (fault : Fault) :
    Leads j now (.discarding fault, d) (.done (.error fault),
      (removeFile d j.temporaryPath now).2) :=
  leads_one .discard rfl

theorem leads_installStaged {result : Except Fault Unit}
    (h : installStaged r d j.temporaryPath j.path j.bytes now = (result, d')) :
    Leads j now (.making, d) (.done result, d') := by
  -- Each refusal of the function is one `fail` of the party, and behind the creation it is followed
  -- by the discard.
  unfold installStaged at h
  split at h
  · obtain ⟨rfl, rfl⟩ := Prod.mk.inj h
    exact leads_one (.fail _) rfl
  · rename_i d₁ hcreate
    have hcreated := unlessRefused_ok hcreate
    have hfile := isFile_of_create hcreated
    have hbegun : Leads j now (.making, d) (.filling [] j.bytes, d₁) :=
      leads_one .create (by simp only [advance, hcreated])
    split at h
    · rename_i fault d₂ hfill
      obtain ⟨rfl, rfl⟩ := Prod.mk.inj h
      exact (hbegun.trans (leads_unfilled hfile hfill)).trans (leads_discard d₂ fault)
    · rename_i d₂ hfill
      have hfilled := hbegun.trans (leads_filled hfile hfill)
      split at h
      · rename_i fault _
        obtain ⟨rfl, rfl⟩ := Prod.mk.inj h
        exact (hfilled.trans (leads_fail _ _ d₂ fault)).trans (leads_discard d₂ fault)
      · rename_i d₃ hrename
        obtain ⟨rfl, rfl⟩ := Prod.mk.inj h
        refine hfilled.trans (leads_one .rename ?_)
        simp only [advance, unlessRefused_ok hrename]

theorem leads_writeStaged {temporary : String} {c c' : Cache} {p : Path} {bytes : List UInt8}
    {result : Except Fault Unit} (h : writeStaged r temporary c d p bytes now = (result, c', d')) :
    Leads ⟨p, bytes, c.absoluteDirectory, temporary⟩ now (.making, d) (.done result, d') := by
  have hmade : Leads ⟨p, bytes, c.absoluteDirectory, temporary⟩ now (.making, d)
      (.making,
        (makeAllBy (makeUnless r now) (p.parent?.getD c.absoluteDirectory).ancestors d).2) :=
    leads_makeAllBy (fun _ hq => hq) d
  unfold writeStaged at h
  simp only at h
  split at h
  · rename_i fault d₁ hmake
    rw [hmake] at hmade
    cases h
    exact hmade.trans (leads_one (.fail fault) rfl)
  · rename_i d₁ hmake
    rw [hmake] at hmade
    split at h
    all_goals
      rename_i d₂ hinstall
      cases h
      exact hmade.trans (leads_installStaged hinstall)

/-- **A write that has the disk to itself** makes steps that come to what `writeStaged` does, result
and disk. -/
theorem exists_acts_writeStaged (r : Refusals) (temporary : String) (c : Cache) (d : Disk)
    (p : Path) (bytes : List UInt8) (now : Instant) :
    ∃ acts : List Act,
      Traffic.after d [⟨p, bytes, c.absoluteDirectory, temporary⟩]
        (acts.map fun act => (now, .deliver 0 act)) =
        ⟨(writeStaged r temporary c d p bytes now).2.2,
          [(⟨p, bytes, c.absoluteDirectory, temporary⟩,
            .done (writeStaged r temporary c d p bytes now).1)]⟩ := by
  generalize hwrite : writeStaged r temporary c d p bytes now = outcome
  obtain ⟨result, c', d'⟩ := outcome
  exact (leads_writeStaged hwrite).exists_run

end Delivery

/-! ## Clears -/

/-- **A clear that has the disk to itself** looks at the names that are listed, one after the
other. -/
theorem run_sweeps {directory : Path} {x : Traffic} {names : List String}
    (h : x.disk.names directory = .ok names) (test : String → Bool) (now : Instant) :
    x.run (names.map fun name => (now, .sweep directory test name)) =
      { x with disk := (removeMatching directory x.disk test now).2 } := by
  rw [removeMatching_of_names h]
  suffices hfold : ∀ (names : List String) (count : Nat) (d : Disk),
      (⟨d, x.deliveries⟩ : Traffic).run (names.map fun name => (now, .sweep directory test name)) =
        ⟨(names.foldl (removeNext directory test now) (count, d)).2,
          x.deliveries⟩ from hfold names 0 x.disk
  intro names
  induction names with
  | nil => exact fun _ _ => rfl
  | cons name rest ih =>
    intro count d
    have hnext : (removeNext directory test now (count, d) name).2 =
      Traffic.swept d directory test now name := by
      rw [removeNext, Traffic.swept]
      split <;> rfl
    rw [List.foldl_cons, ← Prod.mk.eta (p := removeNext directory test now (count, d) name), hnext]
    exact ih _ _

end AltRender.Cache

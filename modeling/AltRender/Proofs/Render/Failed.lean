import AltRender.Proofs.Cache.Staging
import AltRender.Proofs.Render.Run
import AltRender.Proofs.Render.Ways

/-!
# `Proofs/Render/Failed` — a failed render leaves the cache as it was

A render can fail early, with nothing to put into an entry, and then it has only counted its checks;
or late, with an entry that could not be written, and then directories may have been made for it.
Either way no file has come, gone or changed, whatever stage of the write it was that failed.

The late failures are where the care is needed. A write makes directories, creates a temporary file,
fills it and renames it, and any of these can be refused, the filling also after a part of the
bytes. In all cases the temporary file is taken away again, and an older entry in the place of the
new one is still there, because nothing but the rename touches it. The directories that were made
are the only trace, and only a fault of the write leaves it (`Spared`).

A picture that cannot be decoded or encoded, a filter that refuses its picture and a source that
cannot be read come before all that. They fail with nothing to write.
-/

set_option autoImplicit false

namespace AltRender.Studio

open AltRender.Disk AltRender.Cache

/-- **What a fault spares:** all files, with their bytes and times, all directories, and of the
cache everything but the two misses that were counted. Directories are new only if an entry could
not be written. -/
structure Spared (studio : Studio) (fault : RenderFault) (after : Studio) : Prop where
  files : ∀ l bytes t, after.disk.item? l = some (.file bytes t) ↔
    studio.disk.item? l = some (.file bytes t)
  directories : ∀ l, studio.disk.isDirectoryAt l = true → after.disk.isDirectoryAt l = true
  disk : (∀ path cause, fault ≠ .cacheWrite path cause) → after.disk = studio.disk
  start : after.disk.start = studio.disk.start
  cache : after.cache =
    { studio.cache with tally :=
      { studio.cache.tally with misses := studio.cache.tally.misses + 2 } }
  registry : after.registry = studio.registry

theorem spared_afterMiss (studio : Studio) (fault : RenderFault) :
    Spared studio fault studio.afterMiss :=
  ⟨fun _ _ _ => Iff.rfl, fun _ h => h, fun _ => rfl, rfl, rfl, rfl⟩

/-- Directories that were made are spared as well as the rest, if it is an entry that could not be
written. -/
theorem Spared.grown {studio after : Studio} {path : Path} {cause : Fault} {place : Location → Prop}
    {d : Disk} (h : Spared studio (.cacheWrite path cause) after)
    (hgrown : Grown place after.disk d) :
    Spared studio (.cacheWrite path cause) { after with disk := d } := by
  refine ⟨?_, ?_, fun hne => absurd rfl (hne path cause), hgrown.start.trans h.start, h.cache,
    h.registry⟩
  · intro l bytes t
    rw [← h.files, item?_file_iff, item?_file_iff]
    exact hgrown.file_iff
  · intro l hl
    have hfolder := isDirectoryAt_iff.mp (h.directories l hl)
    exact isDirectoryAt_iff.mpr (hgrown.kept l folder hfolder)

/-- **A failed render leaves the cache as it was,** and nothing is shown of it. -/
theorem spared_of_error {w : Writer} {fetch : Fetch} {studio after : Studio} {s : Source}
    {text : String} {theme : Option Theme} {now : Instant} {fault : RenderFault}
    (h : studio.renderBy w fetch s text theme now = (.error fault, after)) :
    Spared studio fault after ∧ studio.presentBy w fetch s text theme now = (none, after) := by
  refine ⟨?_, by rw [presentBy, h]⟩
  have hgoes := renderBy_goes w fetch studio s text theme now
  rw [h] at hgoes
  cases hgoes with
  | unmade _ _ _ => exact spared_afterMiss studio fault
  | unwritten _ _ _ hwrite =>
    obtain ⟨rfl, hgrown⟩ := Writer.write_error hwrite
    exact (spared_afterMiss studio _).grown hgrown

/-- The device has room for three bytes. -/
def full : Refusals :=
  { Refusals.none with contents := some (3, .other "No space left on device (os error 28)") }

/-- An entry that is out of date stays when there is no room for a new one. -/
theorem spared_of_full :
    ∃ after, (small ⟨"c"⟩ renderThenWrite).renderBy (.staged full ".tmp0") (Command.localFetch ⟨""⟩)
        (.atPath ⟨"a.png"⟩ ⟨2000000⟩) "@invert" none ⟨3000000⟩ =
          (.error (.cacheWrite ⟨"c/a_7f071235805f_invert.png"⟩
            (.other "No space left on device (os error 28)")), after) ∧
      Spared (small ⟨"c"⟩ renderThenWrite)
        (.cacheWrite ⟨"c/a_7f071235805f_invert.png"⟩
          (.other "No space left on device (os error 28)")) after ∧
      after.disk.look ⟨"c/a_7f071235805f_invert.png"⟩ =
        .ok (.file (onePixel ⟨245, 235, 225⟩).toContainer ⟨1000000⟩) := by
  obtain ⟨hrender, hlook⟩ :
      ((small ⟨"c"⟩ renderThenWrite).renderBy (.staged full ".tmp0") (Command.localFetch ⟨""⟩)
        (.atPath ⟨"a.png"⟩ ⟨2000000⟩) "@invert" none ⟨3000000⟩).1 =
          .error (.cacheWrite ⟨"c/a_7f071235805f_invert.png"⟩
            (.other "No space left on device (os error 28)")) ∧
      ((small ⟨"c"⟩ renderThenWrite).renderBy (.staged full ".tmp0") (Command.localFetch ⟨""⟩)
        (.atPath ⟨"a.png"⟩ ⟨2000000⟩) "@invert" none ⟨3000000⟩).2.disk.look
        ⟨"c/a_7f071235805f_invert.png"⟩ =
          .ok (.file (onePixel ⟨245, 235, 225⟩).toContainer ⟨1000000⟩) := by
    decide +kernel
  exact ⟨_, Prod.ext hrender rfl, (spared_of_error (Prod.ext hrender rfl)).1, hlook⟩

end AltRender.Studio

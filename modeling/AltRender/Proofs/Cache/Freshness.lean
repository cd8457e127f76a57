import AltRender.Cache.Change
import AltRender.Vault

/-!
# `Proofs/Cache/Freshness` — which entries are new enough

Times of files are kept in nanoseconds and compared in milliseconds, those of sources and those of
entries alike. So an entry is new enough for its source from the start of the millisecond on in
which the source was changed, be it that much earlier than the source (`isCurrentFor_iff`). The one
time that is not compared is the greatest: a source that has it, or a later time, which is cut to
it, counts as one that never changes (`isRemote_iff`).

Two things follow that are not what the words *new enough* suggest, and both have an example at the
end. An entry may be older than its source by up to a millisecond and count as fresh. And an entry
of a source that counts as remote is fresh whenever there is one, so that a local source whose time
is cut to the greatest keeps its entry, whatever is written to it.
-/

set_option autoImplicit false

namespace AltRender

open AltRender.Disk

/-! ## Times in milliseconds -/

/-- The start of the millisecond that a time is in. -/
def Disk.Instant.millisecond (t : Instant) : Instant :=
  .ofMilliseconds (t.nanoseconds / 1000000) 0

/-- The first of the times at which a source counts as one that never changes. -/
def Source.firstUnchanging : Instant :=
  .ofMilliseconds unchanging.toNat 0

theorem Disk.Instant.nanoseconds_millisecond (t : Instant) :
    t.millisecond.nanoseconds = t.nanoseconds / 1000000 * 1000000 :=
  Int.add_zero _

theorem Source.nanoseconds_firstUnchanging :
    firstUnchanging.nanoseconds = unchanging.toNat * 1000000 :=
  rfl

theorem Disk.Instant.exists_milliseconds {t : Instant} (h : 0 ≤ t.nanoseconds) :
    ∃ ms, t.milliseconds? = some ms ∧
      ms.toNat = min (t.nanoseconds.toNat / 1000000) Source.unchanging.toNat := by
  refine ⟨_, if_neg (Int.not_lt.mpr h), ?_⟩
  rw [UInt64.toNat_ofNat', show Source.unchanging.toNat = 18446744073709551615 from rfl,
    show Nat.pow 2 64 = 18446744073709551616 from rfl]
  omega

variable {path : Path} {changed : Instant} {item : Item}

/-- The time of a source in whole milliseconds, at most the greatest. -/
theorem Source.toNat_modified (h : 0 ≤ changed.nanoseconds) :
    (Source.atPath path changed).modified.toNat =
      min (changed.nanoseconds.toNat / 1000000) unchanging.toNat := by
  obtain ⟨ms, hms, hvalue⟩ := Instant.exists_milliseconds h
  rw [Source.atPath, hms, Option.getD_some, hvalue]

/-- **A source in the vault counts as one that never changes if its time is the greatest or
later.** -/
theorem Source.isRemote_iff (h : 0 ≤ changed.nanoseconds) :
    (Source.atPath path changed).isRemote = true ↔
      firstUnchanging.nanoseconds ≤ changed.nanoseconds := by
  rw [isRemote, beq_iff_eq, ← UInt64.toNat_inj, toNat_modified h, nanoseconds_firstUnchanging]
  omega

/-- **From when on an entry is new enough for a source:** from the start of the millisecond of the
source's time. -/
theorem Cache.isCurrentFor_iff (hsource : 0 ≤ changed.nanoseconds)
    (hentry : 0 ≤ item.changed.nanoseconds) :
    isCurrentFor (Source.atPath path changed) item = true ↔
      Source.firstUnchanging.nanoseconds ≤ changed.nanoseconds ∨
        changed.millisecond.nanoseconds ≤ item.changed.nanoseconds := by
  obtain ⟨ms, hms, hvalue⟩ := Instant.exists_milliseconds hentry
  rw [isCurrentFor, hms]
  change ((Source.atPath path changed).isRemote ||
    decide ((Source.atPath path changed).modified ≤ ms)) = true ↔ _
  rw [Bool.or_eq_true, Source.isRemote_iff hsource, decide_eq_true_eq, UInt64.le_iff_toNat_le,
    Source.toNat_modified hsource, hvalue]
  -- Below the greatest time nothing is cut off, and the milliseconds are in the order of the times.
  rw [Source.nanoseconds_firstUnchanging, Instant.nanoseconds_millisecond]
  omega

/-! ## Checks -/

section Checks

variable {c : Cache} {d : Disk} {s : Source} {signatures : List String} {theme : Option Theme}

theorem Cache.check_fst : (c.check d s signatures theme).1 = c.isCurrent d s signatures theme := by
  simp only [check]

theorem Cache.isCurrent_of_look (h : d.look (c.entryPath s signatures theme) = .ok item) :
    c.isCurrent d s signatures theme = isCurrentFor s item := by
  unfold isCurrent
  rw [h]

end Checks

/-- **When an entry that is there is fresh.** Take a source described when its file was last changed
at some time since 1970, and any entry for it that was written since 1970. A check finds the entry
current just if it was not written before the millisecond in which the source was changed, or if the
source's time is so late that it counts as one that never changes. -/
theorem Cache.check_iff_of_times {d : Disk} {root relative : Path} {original : Item}
    (hsource : d.look (root.join relative) = .ok original)
    (hsince : 0 ≤ original.changed.nanoseconds) :
    ∃ s, Vault.describe root d relative = .ok s ∧
      ∀ (c : Cache) (d' : Disk) (signatures : List String) (theme : Option Theme) (entry : Item),
        d'.look (c.entryPath s signatures theme) = .ok entry → 0 ≤ entry.changed.nanoseconds →
          ((c.check d' s signatures theme).1 = true ↔
            Source.firstUnchanging.nanoseconds ≤ original.changed.nanoseconds ∨
              original.changed.millisecond.nanoseconds ≤ entry.changed.nanoseconds) := by
  refine ⟨.atPath relative original.changed, by rw [Vault.describe, hsource]; rfl, ?_⟩
  intro c d' signatures theme entry hentry hsince'
  rw [check_fst, isCurrent_of_look hentry]
  exact isCurrentFor_iff hsince hsince'

/-! ## Close calls -/

/-- A disk with the source `a.png`, changed at one time, and its entry for `invert`, written at
another. -/
def Cache.twoTimes (source entry : Instant) : Disk :=
  ⟨((Keyed.empty.insert ["a.png"] (.file [1] source)).insert ["c"] (.directory entry)).insert
    ["c", "a_7f071235805f_invert.png"] (.file [2] entry), []⟩

/-- Whether a check finds the entry current, the source being described first. -/
def Cache.twoTimesFresh (source entry : Instant) : Option Bool :=
  (Vault.describe ⟨""⟩ (twoTimes source entry) ⟨"a.png"⟩).toOption.map fun s =>
    ((ofDirectory ⟨""⟩ ⟨"c"⟩).check (twoTimes source entry) s ["invert"] none).1

/-- An entry that was written a nanosecond before the millisecond of its source is stale, and one
written with that millisecond is fresh, though the source is later. -/
theorem Cache.check_iff_of_times_border :
    twoTimesFresh ⟨1000005⟩ ⟨999999⟩ = some false ∧
    twoTimesFresh ⟨1000005⟩ ⟨1000000⟩ = some true := by
  have hpath : (ofDirectory ⟨""⟩ ⟨"c"⟩).entryPath (.atPath ⟨"a.png"⟩ ⟨1000005⟩) ["invert"] none =
      ⟨"c/a_7f071235805f_invert.png"⟩ := by
    decide +kernel
  have hcheck : ∀ entry : Instant, 0 ≤ entry.nanoseconds →
    ∃ fresh, twoTimesFresh ⟨1000005⟩ entry = some fresh ∧
      (fresh = true ↔
        Source.firstUnchanging.nanoseconds ≤ 1000005 ∨ 1000000 ≤ entry.nanoseconds) := by
    intro entry hsince
    obtain ⟨s, hs, hcheck⟩ :=
      @check_iff_of_times (twoTimes ⟨1000005⟩ entry) ⟨""⟩ ⟨"a.png"⟩ (.file [1] ⟨1000005⟩) rfl
        (by decide)
    refine ⟨_, by rw [twoTimesFresh, hs]; rfl, hcheck _ _ _ _ (.file [2] entry) ?_ hsince⟩
    obtain rfl := Except.ok.inj hs
    exact hpath ▸ rfl
  obtain ⟨stale, hstale, hnot⟩ := hcheck ⟨999999⟩ (by decide)
  obtain ⟨fresh, hfresh, hiff⟩ := hcheck ⟨1000000⟩ (by decide)
  refine ⟨?_, hfresh.trans (congrArg some (hiff.mpr (.inr (by decide))))⟩
  rw [hstale, Option.some.injEq, Bool.eq_false_iff, Ne, hnot]
  decide

/-- **Times are compared in milliseconds.** An entry that was written before its source, in the same
millisecond, is taken for fresh; so is one that was written long before its source if the source has
the greatest time. -/
theorem Cache.check_of_earlier_entry :
    twoTimesFresh ⟨1⟩ ⟨0⟩ = some true ∧ twoTimesFresh Source.firstUnchanging ⟨0⟩ = some true := by
  decide +kernel

end AltRender

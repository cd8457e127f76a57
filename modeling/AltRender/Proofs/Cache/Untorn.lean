import AltRender.Proofs.Cache.Delivered
import Mathlib.Data.List.Induction

/-!
# `Proofs/Cache/Untorn` — readers never see half an entry

Writes fill temporary files and rename them, so that whoever reads an entry finds all of its bytes
or none. With any number of writes and clears under way at once this takes more than one step that
is atomic: a clear of the directory removes temporary files as well, several writes may have one
target, and any step may fail. It holds all the same after every row of steps (`entries_whole`), and
a write that has succeeded was in its place, with all of its bytes, right after its rename.

A write that fails leaves its target as it was, with one exception that it has in common with the
place of any entry: it may have made a directory there, if the path of the cache leads through that
place (`directory_of_detour`).
-/

set_option autoImplicit false

namespace AltRender.Cache

open AltRender.Disk AltRender.Text

/-! ## A run -/

section Run

variable {d : Disk} {deliveries : List Delivery} {x : Traffic} {i : Nat} {j : Delivery}

theorem done_run {result : Except Fault Unit} (hdone : x.deliveries[i]? = some (j, .done result))
    (moves : List (Instant × Move)) : (x.run moves).deliveries[i]? = some (j, .done result) := by
  induction moves generalizing x with
  | nil => exact hdone
  | cons move moves ih => exact ih (done_step hdone move.1 move.2)

theorem Reached.run (h : Reached d deliveries x) (hapart : Apart deliveries)
    (moves : List (Instant × Move)) : Reached d deliveries (x.run moves) := by
  induction moves generalizing x with
  | nil => exact h
  | cons move moves ih => exact ih (h.step hapart move.1 move.2)

/-- A write that has come to be done with success renamed its file in the last step, or was done
before. -/
theorem Reached.delivered_step (h : Reached d deliveries x) {now : Instant} {move : Move}
    (hdone : (x.step now move).deliveries[i]? = some (j, .done (.ok ()))) :
    x.deliveries[i]? = some (j, .done (.ok ())) ∨
      move = .deliver i .rename ∧
      ∃ t, (x.step now move).disk.seen (j.path.destination d.start) = some (.file j.bytes t) := by
  cases move with
  | deliver k act =>
    cases hk : x.deliveries[k]? with
    | none =>
      rw [step_deliver_none hk] at hdone
      exact .inl hdone
    | some e =>
      obtain ⟨j', progress⟩ := e
      have hturn := j'.advance_turn now x.disk progress act
      rw [step_deliver hk] at hdone ⊢
      rcases getElem?_set_cases hdone with ⟨rfl, heq⟩ | ⟨-, hbefore⟩
      · obtain ⟨rfl, hprogress⟩ := Prod.mk.inj heq
        rw [← hprogress] at hturn
        -- A delivery that was not done before this turn is done by it, and that is the rename.
        by_cases hnew : progress = .done (.ok ())
        · exact .inl (hnew ▸ hk)
        · obtain ⟨rfl, t, hafter⟩ := hturn.delivered (h.fits k j progress hk) hnew
          exact .inr ⟨rfl, t, h.start ▸ hafter⟩
      · exact .inl hbefore
  | clear p => exact .inl hdone
  | sweep directory test name => exact .inl hdone

theorem reached_after (d : Disk) (hapart : Apart deliveries) (moves : List (Instant × Move)) :
    Reached d deliveries (Traffic.after d deliveries moves) :=
  (Reached.ofDeliveries d deliveries).run hapart moves

theorem after_append (d : Disk) (deliveries : List Delivery)
    (moves moves' : List (Instant × Move)) :
    Traffic.after d deliveries (moves ++ moves') = (Traffic.after d deliveries moves).run moves' :=
  List.foldl_append

/-- **A write that is done with success has renamed its file,** and put all its bytes into place by
that. -/
theorem exists_rename (hapart : Apart deliveries) {moves : List (Instant × Move)}
    (hdone : (Traffic.after d deliveries moves).deliveries[i]? = some (j, .done (.ok ()))) :
    ∃ earlier now later t, moves = earlier ++ (now, .deliver i .rename) :: later ∧
      (Traffic.after d deliveries (earlier ++ [(now, .deliver i .rename)])).disk.seen
        (j.path.destination d.start) =
        some (.file j.bytes t) := by
  induction moves using List.reverseRecOn with
  | nil =>
    rw [Traffic.after, Traffic.run, List.foldl_nil, Traffic.ofDeliveries, List.getElem?_map,
      Option.map_eq_some_iff] at hdone
    obtain ⟨j', -, heq⟩ := hdone
    exact absurd (Prod.mk.inj heq).2 (by simp)
  | append_singleton moves move ih =>
    obtain ⟨now, move⟩ := move
    have hlast : Traffic.after d deliveries (moves ++ [(now, move)]) =
      (Traffic.after d deliveries moves).step now move :=
      after_append d deliveries moves [(now, move)]
    rw [hlast] at hdone
    rcases (reached_after d hapart moves).delivered_step hdone with hbefore | ⟨rfl, t, hafter⟩
    · obtain ⟨earlier, now', later, t, rfl, hthere⟩ := ih hbefore
      exact ⟨earlier, now', later ++ [(now, move)], t, by simp, hthere⟩
    · exact ⟨moves, now, [], t, rfl, hlast ▸ hafter⟩

/-- A step of a write that comes to fail leaves its target as it is, or makes a directory there. -/
theorem target_of_failed (hapart : Apart deliveries) {earlier later : List (Instant × Move)}
    {now : Instant} {act : Delivery.Act} {fault : Fault}
    (hdone :
      (Traffic.after d deliveries (earlier ++ (now, .deliver i act) :: later)).deliveries[i]? =
        some (j, .done (.error fault))) :
    let x := Traffic.after d deliveries earlier
    let x' := x.step now (.deliver i act)
    x'.disk.seen (j.path.destination d.start) = x.disk.seen (j.path.destination d.start) ∨
      x.disk.seen (j.path.destination d.start) = none ∧
      x'.disk.seen (j.path.destination d.start) = some folder ∧
        j.path.destination d.start ∈ waypoints d.start j.directory := by
  have hreached := reached_after d hapart earlier
  have hlast := (reached_after d hapart _).getElem? hdone
  rw [after_append] at hdone
  generalize Traffic.after d deliveries earlier = x at hdone hreached
  intro _ x'
  cases hj : x.deliveries[i]? with
  | none => exact .inl (by rw [show x' = x from step_deliver_none hj now act])
  | some e =>
    obtain ⟨j', progress⟩ := e
    obtain rfl : j' = j := Option.some.inj ((hreached.getElem? hj).symm.trans hlast)
    have hplace := isEntryPlace_of_isEntryPath (hapart.targets j' (hreached.mem hj)) d.start
    have hne := hapart.ne_of_isEntryPlace (hreached.mem hj) hplace x.disk.start
    have hstep : x' = _ := step_deliver hj now act
    cases (j'.advance_turn now x.disk progress act).effect (hreached.fits i j' progress hj) hne with
    | none heq => exact .inl (hstep ▸ heq)
    | made hbefore hafter hway => exact .inr ⟨hbefore, hstep ▸ hafter, hreached.start ▸ hway⟩
    | delivered hdelivered htarget hafter =>
      -- Then it would be done with success, and stay so.
      have hok : x'.deliveries[i]? = some (j', .done (.ok ())) := by
        rw [hstep, List.getElem?_set, if_pos rfl, if_pos (List.getElem?_eq_some_iff.mp hj).1,
          hdelivered]
      have hstays := done_run hok later
      exact absurd (hdone.symm.trans hstays) (by simp)

/-- **What is read at an entry's path** are the bytes of what was there at first, or those of a
write that has succeeded. -/
theorem Reached.read (h : Reached d deliveries x) {p : Path} (hp : IsEntryPath p)
    {bytes : List UInt8} (hread : x.disk.read p = .ok bytes) :
    (∃ t, d.seen (p.destination d.start) = some (.file bytes t)) ∨
      ∃ (i : Nat) (j : Delivery), x.deliveries[i]? = some (j, .done (.ok ())) ∧
        j.path.destination d.start = p.destination d.start ∧ bytes = j.bytes := by
  obtain ⟨t, -, hthere⟩ := read_ok hread
  rw [h.start] at hthere
  have hholds := h.entries _ (isEntryPlace_of_isEntryPath hp d.start)
  generalize hseen : x.disk.seen (p.destination d.start) = item at hthere hholds
  cases hholds with
  | nothing => exact absurd hthere (by simp)
  | before => exact .inl ⟨t, hthere⟩
  | delivered hdone htarget =>
    exact .inr ⟨_, _, hdone, htarget, (Item.file.inj (Option.some.inj hthere)).1.symm⟩
  | made => exact absurd hthere (by simp [folder])

end Run

/-- **Readers never see half an entry.** Let any number of writes to entries and any clears be under
way at once, in any order of their steps, any of which may fail. At every moment the place of each
entry has nothing, or what it had at first, or all the bytes of a write to it that has succeeded, or
a directory if it is on the way of a write; and what is read there are bytes of the second or the
third kind. A write that reports success has put all its bytes into place by one step. A write that
reports an error has not changed its target, unless it has made a directory there on its way. -/
theorem entries_whole {deliveries : List Delivery} (hapart : Apart deliveries) (d : Disk)
    (moves : List (Instant × Move)) :
    (∀ p, IsEntryPath p →
      Holds d deliveries (Traffic.after d deliveries moves) (p.destination d.start)
      ((Traffic.after d deliveries moves).disk.seen (p.destination d.start))) ∧
    (∀ p bytes, IsEntryPath p → (Traffic.after d deliveries moves).disk.read p = .ok bytes →
      (∃ t, d.seen (p.destination d.start) = some (.file bytes t)) ∨
        ∃ (i : Nat) (j : Delivery), (Traffic.after d deliveries moves).deliveries[i]? =
          some (j, .done (.ok ())) ∧
          j.path.destination d.start = p.destination d.start ∧ bytes = j.bytes) ∧
    (∀ (i : Nat) (j : Delivery),
      (Traffic.after d deliveries moves).deliveries[i]? = some (j, .done (.ok ())) →
      ∃ earlier now later t, moves = earlier ++ (now, .deliver i .rename) :: later ∧
        (Traffic.after d deliveries (earlier ++ [(now, .deliver i .rename)])).disk.seen
          (j.path.destination d.start) =
          some (.file j.bytes t)) ∧
    ∀ (i : Nat) (j : Delivery) fault,
      (Traffic.after d deliveries moves).deliveries[i]? = some (j, .done (.error fault)) →
      ∀ earlier now act later, moves = earlier ++ (now, .deliver i act) :: later →
        let x := Traffic.after d deliveries earlier
        let x' := x.step now (.deliver i act)
        x'.disk.seen (j.path.destination d.start) = x.disk.seen (j.path.destination d.start) ∨
          x.disk.seen (j.path.destination d.start) = none ∧
          x'.disk.seen (j.path.destination d.start) = some folder ∧
            j.path.destination d.start ∈ waypoints d.start j.directory := by
  -- Each part is read off the invariant where the run has come to.
  have hreached := reached_after d hapart moves
  refine ⟨fun p hp => hreached.entries _ (isEntryPlace_of_isEntryPath hp d.start),
    fun p bytes hp => hreached.read hp,
    fun i j => exists_rename hapart, fun i j fault hdone earlier now act later hmoves => ?_⟩
  subst hmoves
  exact target_of_failed hapart hdone

/-! ## Two writes and a clear -/

/-- Two writes to one entry. -/
def twoDeliveries : List Delivery :=
  [⟨⟨"c/a.png"⟩, [1, 2], ⟨"c"⟩, ".tmpAaAaAa"⟩, ⟨⟨"c/a.png"⟩, [3, 4, 5], ⟨"c"⟩, ".tmpBbBbBb"⟩]

/-- The first has appended a byte when the directory is cleared, and goes on; the second appends its
bytes in two parts. -/
def sweptMoves : List (Instant × Move) :=
  [(⟨1⟩, .deliver 0 (.make ⟨"c"⟩)), (⟨2⟩, .deliver 0 .create), (⟨3⟩, .deliver 0 (.append 1)),
    (⟨4⟩, .sweep ⟨"c"⟩ (fun _ => true) ".tmpAaAaAa"), (⟨5⟩, .deliver 1 .create),
    (⟨6⟩, .deliver 1 (.append 2)),
    (⟨7⟩, .deliver 0 (.append 1)), (⟨8⟩, .deliver 0 .rename), (⟨9⟩, .deliver 1 (.append 1)),
    (⟨10⟩, .deliver 1 .rename),
    (⟨11⟩, .deliver 0 .discard)]

/-- The first has lost its file and fails, and the entry is the second's. -/
theorem entries_whole_swept :
    Apart twoDeliveries ∧
      (Traffic.after Disk.empty twoDeliveries sweptMoves).deliveries.map Prod.snd =
        [.done (.error .notFound), .done (.ok ())] ∧
      Holds Disk.empty twoDeliveries (Traffic.after Disk.empty twoDeliveries sweptMoves) ["c",
        "a.png"]
        ((Traffic.after Disk.empty twoDeliveries sweptMoves).disk.seen ["c", "a.png"]) ∧
      (Traffic.after Disk.empty twoDeliveries sweptMoves).disk.read ⟨"c/a.png"⟩ = .ok [3, 4, 5] ∧
      ∃ earlier now later t, sweptMoves = earlier ++ (now, .deliver 1 .rename) :: later ∧
        (Traffic.after Disk.empty twoDeliveries (earlier ++ [(now, .deliver 1 .rename)])).disk.seen
          ["c", "a.png"] =
          some (.file [3, 4, 5] t) := by
  have hapart : Apart twoDeliveries := by decide
  have hplace : (⟨"c/a.png"⟩ : Path).destination Disk.empty.start = ["c", "a.png"] := by
    decide +kernel
  obtain ⟨hholds, -, hdelivered, -⟩ := entries_whole hapart Disk.empty sweptMoves
  have hentry := hholds ⟨"c/a.png"⟩ (by decide)
  have hrenamed := hdelivered 1 ⟨⟨"c/a.png"⟩, [3, 4, 5], ⟨"c"⟩, ".tmpBbBbBb"⟩ rfl
  simp only [hplace] at hentry hrenamed
  exact ⟨hapart, rfl, hentry, rfl, hrenamed⟩

/-! ## A detour -/

/-- A write to an entry of a cache whose path leads through the place of that entry. -/
def detoured : Delivery :=
  ⟨⟨"c/a_7f071235805f_invert.png/../a_7f071235805f_invert.png"⟩, [1],
    ⟨"c/a_7f071235805f_invert.png/.."⟩, ".tmpAaAaAa"⟩

def detouredMoves : List (Instant × Move) :=
  [.make ⟨"c"⟩, .make ⟨"c/a_7f071235805f_invert.png"⟩, .create, .append 1, .rename, .discard].map
    fun act => (⟨1⟩, .deliver 0 act)

/-- **A write that reports an error may have changed its target:** on the way to the detoured entry,
it makes a directory in the entry's place, which then holds no bytes at all. -/
theorem directory_of_detour :
    Apart [detoured] ∧
    detoured.path.destination Disk.empty.start = ["c", "a_7f071235805f_invert.png"] ∧
      (Traffic.after Disk.empty [detoured] detouredMoves).deliveries.map Prod.snd =
        [.done (.error .isADirectory)] ∧
      Disk.empty.seen ["c", "a_7f071235805f_invert.png"] = none ∧
      (Traffic.after Disk.empty [detoured] detouredMoves).disk.seen ["c",
        "a_7f071235805f_invert.png"] = some folder ∧
      (Traffic.after Disk.empty [detoured] detouredMoves).disk.read detoured.path =
        .error .isADirectory :=
  ⟨by decide, by decide +kernel, rfl, rfl, by decide +kernel, rfl⟩

end AltRender.Cache

import AltRender.Command.Run
import AltRender.Picture.Container
import AltRender.Proofs.Settings

/-!
# `Proofs/Command/Saving` — settings saved by a run

A run that saves its settings writes what it works with itself: options, settings file and usual
values put together. So a later run that names the file works with the same settings, whether it
leaves the options out or repeats them, and saving once more leaves the file as it is
(`settings_saved`).

Both runs put three things together, in one order: what the options say, then what the settings file
says, then the usual values. The second run finds in the file what was in effect in the first, so
that it makes no difference whether the options are given again (`effectiveSettings_of_load`). That
the text of the settings is read back as it was written is known from `Settings`, for values with
any characters; here it is carried through the reader of the command line.
-/

set_option autoImplicit false

namespace AltRender.Command

open AltRender.Disk

/-- Whether each option of a request is left out or given as in another one, apart from the settings
file, which is the same. -/
structure Request.Repeats (r' r : Request) : Prop where
  config : r'.config = r.config
  vault : r'.vault = none ∨ r'.vault = r.vault
  cacheDirectory : r'.cacheDirectory = none ∨ r'.cacheDirectory = r.cacheDirectory
  debug : r'.debug = true → r.debug = true

variable {codec : Codec} {d e : Disk} {now : Instant} {arguments : List String} {r r' : Request}
  {p : Path} {s : Settings}

/-- An option given again makes no difference. -/
theorem getD_of_repeats {option option' : Option Path} (h : option' = none ∨ option' = option)
    (usual : Path) : option'.getD (option.getD usual) = option.getD usual := by
  rcases h with rfl | rfl
  · rfl
  · cases option' <;> rfl

/-- **Settings in effect stay in effect when they are read from the settings file.** -/
theorem effectiveSettings_of_load (hs : effectiveSettings d r = .ok s) (hconfig : r.config = some p)
    (hload : Settings.load e p = .ok s) (hrepeats : r'.Repeats r) :
    effectiveSettings e r' = .ok s := by
  unfold effectiveSettings at hs
  cases hfile : fileSettings d r.config with
  | error reason =>
    rw [hfile] at hs
    exact absurd hs (by simp [Except.map])
  | ok f =>
    rw [hfile] at hs
    obtain rfl := Except.ok.inj hs
    have hdebug : (f.debug || r.debug || r'.debug) = (f.debug || r.debug) := by
      cases hdebug : r'.debug with
      | false => rw [Bool.or_false]
      | true => rw [hrepeats.debug hdebug, Bool.or_true, Bool.or_true]
    simp only [effectiveSettings, fileSettings, hrepeats.config, hconfig, hload, Except.mapError,
      Except.map, getD_of_repeats hrepeats.vault, getD_of_repeats hrepeats.cacheDirectory, hdebug]

/-! ## Runs -/

/-- What a run that saves its settings comes to. -/
theorem run_write (hread : read arguments = .ok (.request r)) (htask : r.task = .config true)
    (hconfig : r.config = some p) (hs : effectiveSettings d r = .ok s)
    (hsave : s.save d p now = (.ok (), e)) :
    run codec d now arguments = ⟨0, s.toText, "Saved " ++ p.text ++ "\n", e⟩ := by
  simp only [run, hread, hs, runTask, htask, hconfig, runConfig, hsave]
  rfl

/-- A run that saves its settings succeeds only if there is a file to save them to, and if that
succeeds. -/
theorem run_write_ok (hread : read arguments = .ok (.request r)) (htask : r.task = .config true)
    (hexit : (run codec d now arguments).exitCode = 0) :
    ∃ p s e, r.config = some p ∧ effectiveSettings d r = .ok s ∧ s.save d p now = (.ok (), e) := by
  simp only [run, hread] at hexit
  cases hs : effectiveSettings d r with
  | error reason =>
    simp only [hs] at hexit
    exact absurd hexit (by simp [Report.failed, Report.outcome])
  | ok s =>
    simp only [hs, runTask, htask, runConfig, Bool.not_true, Bool.false_eq_true, if_false] at hexit
    cases hconfig : r.config with
    | none =>
      simp only [hconfig] at hexit
      exact absurd hexit (by simp [Report.outcome])
    | some p =>
      simp only [hconfig] at hexit
      cases hsave : s.save d p now with
      | mk result e =>
        cases result with
        | error fault =>
          simp only [hsave] at hexit
          exact absurd hexit (by simp [Report.outcome])
        | ok u => exact ⟨p, s, e, rfl, rfl, hsave⟩

/-- **Saved settings are those in effect.** After a run that saved its settings a run that names the
file and otherwise at most repeats the options works with the same settings; and if it saves them
again it succeeds and leaves the text of the file as it is. -/
theorem settings_saved (hread : read arguments = .ok (.request r)) (htask : r.task = .config true)
    (hexit : (run codec d now arguments).exitCode = 0) :
    ∃ p s, r.config = some p ∧ effectiveSettings d r = .ok s ∧
      (run codec d now arguments).disk.readText p = .ok s.toText ∧
      ∀ r', r'.Repeats r →
        effectiveSettings (run codec d now arguments).disk r' = .ok s ∧
        ∀ now' arguments', read arguments' = .ok (.request r') → r'.task = .config true →
          (run codec (run codec d now arguments).disk now' arguments').exitCode = 0 ∧
          (run codec (run codec d now arguments).disk now' arguments').disk.readText p =
            .ok s.toText := by
  obtain ⟨p, s, e, hconfig, hs, hsave⟩ := run_write_ok hread htask hexit
  rw [run_write hread htask hconfig hs hsave]
  refine ⟨p, s, hconfig, hs, Settings.readText_of_save hsave, fun r' hrepeats => ?_⟩
  have hs' := effectiveSettings_of_load hs hconfig (Settings.load_of_save hsave) hrepeats
  refine ⟨hs', fun now' arguments' hread' htask' => ?_⟩
  obtain ⟨e', hsave'⟩ := Settings.save_again hsave s now'
  rw [run_write hread' htask' (hrepeats.config.trans hconfig) hs' hsave']
  exact ⟨rfl, Settings.readText_of_save hsave'⟩

/-- A disk with a settings file that sets the cache directory only. -/
def partlySet : Disk :=
  ⟨Keyed.empty.insert ["s.toml"] (.file "cache_dir = 'k'".toUTF8.data.toList ⟨0⟩), []⟩

/-- A vault whose name has both kinds of quotes, a line break and a backslash is found again. -/
theorem settings_saved_quoted :
    let arguments := ["--vault", "a\"'''\n\\", "--config", "s.toml", "config", "--write", "--debug"]
    (run .container partlySet ⟨0⟩ arguments).exitCode = 0 ∧
      effectiveSettings (run .container partlySet ⟨0⟩ arguments).disk ⟨some ⟨"s.toml"⟩, none, none,
        false, .config false⟩ =
        .ok ⟨⟨"a\"'''\n\\"⟩, ⟨"k"⟩, true⟩ := by
  intro arguments
  have hexit : (run .container partlySet ⟨0⟩ arguments).exitCode = 0 := by decide +kernel
  obtain ⟨p, s, -, hs, -, hlater⟩ :=
    settings_saved
      (r := ⟨some ⟨"s.toml"⟩, some ⟨"a\"'''\n\\"⟩, none, true, .config true⟩) rfl rfl hexit
  obtain rfl : s = ⟨⟨"a\"'''\n\\"⟩, ⟨"k"⟩, true⟩ :=
    Except.ok.inj (hs.symm.trans (by decide +kernel))
  have hlater :=
    hlater ⟨some ⟨"s.toml"⟩, none, none, false, .config false⟩ ⟨rfl, .inl rfl, .inl rfl, by simp⟩
  exact ⟨hexit, hlater.1⟩

end AltRender.Command

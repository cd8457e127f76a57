import AltRender.Command.Line
import AltRender.Disk.Change
import AltRender.Glob.Search
import AltRender.Json.Record
import AltRender.Render
import AltRender.Settings

/-!
# `Command/Run` — what the commands do

A run takes a disk and the arguments of a command line to what is printed, the exit code and the
disk afterwards. The settings come from the settings file, if one is named, and options count for
more than it. A run that fails prints why and exits with 1; a command line that cannot be followed
exits with 2.

* `allSources`: the pictures that patterns lead to, each with the identity it has in the vault;
* `runRender`, `runClear`, `runConfig`, …: the commands, one definition each;
* `run`: the command line read, the settings found, and the command run with them.

A run is given the codec that its renders read and write pictures with.
-/

set_option autoImplicit false

namespace AltRender.Command

open AltRender.Disk

/-! ## Results -/

structure Outcome where
  exitCode : Nat
  out : String
  err : String
  disk : Disk

/-- What a command printed and did so far, and why it failed, if it did. -/
structure Report where
  out : String
  err : String
  failure : Option String
  disk : Disk

/-- A command that has printed something. -/
def Report.printed (out : String) (d : Disk) : Report := ⟨out, "", none, d⟩

def Report.failed (reason : String) (d : Disk) : Report := ⟨"", "", some reason, d⟩

def Report.outcome (r : Report) : Outcome :=
  match r.failure with
  | none => ⟨0, r.out, r.err, r.disk⟩
  | some reason => ⟨1, r.out, r.err ++ "Error: " ++ reason ++ "\n", r.disk⟩

/-! ## Settings -/

/-- A fault of the settings file and then its cause, which it has in its words already. -/
def settingsReason : SettingsFault → String
  | .io path cause => (SettingsFault.io path cause).message ++ ": " ++ cause.message
  | .unreadable path => (SettingsFault.unreadable path).message

/-- The settings from the settings file. -/
def fileSettings (d : Disk) : Option Path → Except String Settings
  | none => .ok Settings.usual
  | some p => (Settings.load d p).mapError fun fault =>
    "loading " ++ p.text ++ ": " ++ settingsReason fault

/-- **The settings of a run:** options count for more than the settings file. -/
def effectiveSettings (d : Disk) (r : Request) : Except String Settings :=
  (fileSettings d r.config).map fun s =>
    ⟨r.vault.getD s.vaultRoot, r.cacheDirectory.getD s.cacheDirectory, s.debug || r.debug⟩

/-! ## Sources -/

/-- How sources are had where there is no network. -/
def localFetch (root : Path) : Fetch := fun d s =>
  if s.isRemote then .error (.network s.identity "offline") else Vault.read root d s.identity

/-- The sources in the vault that a pattern leads to. -/
def localSources (root : Path) (d : Disk) (pattern : String) : Except String (List Source) := do
  let search ← (Glob.Search.ofText (root.join ⟨pattern⟩).text).mapError fun fault =>
    "bad pattern '" ++ pattern ++ "': " ++ fault.message
  let files := (search.run d).filter d.isFile
  files.mapM fun p => (Vault.describe root d ((p.stripLeading? root).getD p)).mapError Fault.message

/-- The sources that a pattern leads to: that of a URL, or files in the vault. -/
def sourcesOf (root : Path) (d : Disk) (pattern : String) : Except String (List Source) :=
  if Source.isRemoteLocation pattern then .ok [Source.remote pattern]
    else localSources root d pattern

def allSources (root : Path) (d : Disk) (patterns : List String) : Except String (List Source) :=
  (patterns.mapM (sourcesOf root d)).map List.flatten

/-! ## Commands -/

/-- Everything that renders work with, at the start of a run. -/
def studioOf (codec : Codec) (s : Settings) (d : Disk) : Studio :=
  ⟨Registry.builtin, codec, Cache.ofDirectory s.vaultRoot s.cacheDirectory, d, 0⟩

/-- What is printed about a render that gave something. -/
def renderedLine (s : Source) : Rendered → String
  | .noFilters => s.identity ++ " -> (no filters)\n"
  | .cached p => s.identity ++ " -> " ++ p.text ++ " (cached)\n"
  | .created p => s.identity ++ " -> " ++ p.text ++ "\n"

/-- What is printed about a render that gave nothing. -/
def faultLine (s : Source) (fault : RenderFault) : String :=
  s.identity ++ " -> failed: " ++ fault.message ++
    (if fault.isTransient then " (may succeed on retry)" else "") ++ "\n"

/-- Renders so far: what they printed, how many failed, and the studio after them. -/
structure Batch where
  out : String
  err : String
  failures : Nat
  studio : Studio

/-- One more render. -/
def Batch.add (fetch : Fetch) (alt : String) (theme : Option Theme) (now : Instant) (b : Batch)
    (s : Source) : Batch :=
  match b.studio.render fetch s alt theme now with
  | (.ok rendered, studio) => { b with out := b.out ++ renderedLine s rendered, studio := studio }
  | (.error fault, studio) =>
    { b with err := b.err ++ faultLine s fault, failures := b.failures + 1, studio := studio }

/-- Renders the sources that patterns lead to. -/
def runRender (codec : Codec) (s : Settings) (d : Disk) (now : Instant) (patterns : List String)
    (alt : String) (theme : Option Theme) : Report :=
  match allSources s.vaultRoot d patterns with
  | .error reason => .failed reason d
  | .ok [] => .failed "nothing to render" d
  | .ok sources =>
    let b := sources.foldl (Batch.add (localFetch s.vaultRoot) alt theme now)
      ⟨"", "", 0, studioOf codec s d⟩
    let failure :=
      if b.failures = 0 then none else some s!"{b.failures} of {sources.length} renders failed"
    ⟨b.out, b.err, failure, b.studio.disk⟩

/-- Shows the requests in an annotation, its problems, and the signatures of its chain. -/
def runParse (d : Disk) (text : String) : Report :=
  let specs := Directive.specs text
  let signatures := Chain.signatures (Registry.builtin.resolve specs)
  let problems := (Directive.diagnostics text).map fun p => "skipped: " ++ p.message ++ "\n"
  ⟨(Spec.listToJson specs).indentedText ++ "\n" ++ String.join (signatures.map (· ++ "\n")),
    String.join problems,
    none, d⟩

/-- Lists the filters and their other names. -/
def runFilters (d : Disk) : Report :=
  let r := Registry.builtin
  let names := r.names.map fun name => "  " ++ name ++ "\n"
  let others := r.aliases.entries.map fun e => "  " ++ e.1 ++ " (alias of " ++ e.2 ++ ")\n"
  .printed (s!"Available filters ({r.size} total):\n" ++ String.join names ++ String.join others) d

/-- Removes the entries of a source, or all. A source in the vault need not exist. -/
def runClear (codec : Codec) (s : Settings) (d : Disk) (now : Instant) (file : Option String) :
    Report :=
  let studio := studioOf codec s d
  let (removed, studio) :=
    match file with
    | none => studio.clearEntire now
    | some location =>
      if Source.isRemoteLocation location then studio.invalidate (Source.remote location) now
      else studio.invalidate ⟨location, location, location, 0⟩ now
  .printed s!"Removed {removed} cache entries\n" studio.disk

/-- Shows the settings, and saves them if that is asked for. -/
def runConfig (s : Settings) (d : Disk) (now : Instant) (file : Option Path) (write : Bool) :
    Report :=
  if !write then .printed s.toText d
  else
    match file with
    | none => { Report.printed s.toText d with failure := some "--write needs --config <FILE>" }
    | some p =>
      match s.save d p now with
      | (.error fault, d) =>
        { Report.printed s.toText d with failure := some (settingsReason fault) }
      | (.ok (), d) => { Report.printed s.toText d with err := "Saved " ++ p.text ++ "\n" }

/-- A task with its settings. -/
def runTask (codec : Codec) (r : Request) (s : Settings) (d : Disk) (now : Instant) : Report :=
  match r.task with
  | .render patterns alt theme => runRender codec s d now patterns alt theme
  | .parse text => runParse d text
  | .filters => runFilters d
  | .clear file => runClear codec s d now file
  | .config write => runConfig s d now r.config write

/-- **A run of the program** with the arguments of its command line. -/
def run (codec : Codec) (d : Disk) (now : Instant) (arguments : List String) : Outcome :=
  match read arguments with
  | .error fault => ⟨2, "", "error: " ++ fault.message ++ "\n", d⟩
  | .ok (.show text) => ⟨0, text, "", d⟩
  | .ok (.request r) =>
    match effectiveSettings d r with
    | .error reason => (Report.failed reason d).outcome
    | .ok s => (runTask codec r s d now).outcome

end AltRender.Command

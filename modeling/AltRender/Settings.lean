import AltRender.Disk.Change
import AltRender.Toml.Reader

/-!
# `Settings` — what a user can set, and the file it is kept in

Three things can be set: the root of the vault, the cache directory, relative to it, and whether to
log verbosely. A settings file may leave out any of them and hold more than them; what is left out
has its usual value, and so has everything if there is no file.

The file is TOML, of which three keys at the outermost level are looked at. A key that stands for
another kind of value spoils the file, and so does a text that is no TOML; a key that is not known
is passed over. Settings that are saved are read as the same settings again.
-/

set_option autoImplicit false

namespace AltRender

open AltRender.Disk

/-- What a user can set. -/
structure Settings where
  vaultRoot : Path
  cacheDirectory : Path
  debug : Bool
  deriving DecidableEq, Repr

/-- Why a settings file could not be used. -/
inductive SettingsFault where
  /-- The disk refuses. -/
  | io (path : Path) (cause : Fault)
  /-- The file holds no settings. -/
  | unreadable (path : Path)
  deriving DecidableEq, Repr

def SettingsFault.message : SettingsFault → String
  | .io path cause => s!"Failed to access config file {path.text}: {cause.message}"
  | .unreadable path => s!"Invalid config file {path.text}: TOML parse error"

namespace Settings

/-- The settings where nothing is set. -/
def usual : Settings := ⟨⟨"."⟩, ⟨".obsidian/.dark-image-cache"⟩, false⟩

def absoluteCacheDirectory (s : Settings) : Path :=
  s.vaultRoot.join s.cacheDirectory

/-! ## As text -/

def vaultRootKey : String := "vault_root"

def cacheDirectoryKey : String := "cache_dir"

def debugKey : String := "debug"

private def line (key : String) (item : List Char) : List Char :=
  key.toList ++ " = ".toList ++ item ++ ['\n']

/-- **The settings as the text of a file.** -/
def toText (s : Settings) : String :=
  String.ofList <|
    line vaultRootKey (Toml.writeText s.vaultRoot.text.toList) ++
    line cacheDirectoryKey (Toml.writeText s.cacheDirectory.text.toList) ++
    line debugKey (if s.debug then "true" else "false").toList

/-- The path under a name, or the usual one; nothing if the name stands for something else. -/
private def pathUnder (key : String) (usual : Path) (es : Toml.Entries) : Option Path :=
  match Keyed.lookup key es with
  | none => some usual
  | some (.text s) => some ⟨s⟩
  | some _ => none

private def flagUnder (key : String) (usual : Bool) (es : Toml.Entries) : Option Bool :=
  match Keyed.lookup key es with
  | none => some usual
  | some (.flag b) => some b
  | some _ => none

def ofEntries? (es : Toml.Entries) : Option Settings := do
  pure ⟨← pathUnder vaultRootKey usual.vaultRoot es,
    ← pathUnder cacheDirectoryKey usual.cacheDirectory es,
    ← flagUnder debugKey usual.debug es⟩

/-- **The settings in the text of a file.** -/
def ofText? (text : String) : Option Settings :=
  (Toml.read? text).bind ofEntries?

/-! ## As a file -/

/-- **The settings in the file at a path,** the usual ones if there is none. -/
def load (d : Disk) (p : Path) : Except SettingsFault Settings :=
  match d.readText p with
  | .error .notFound => .ok usual
  | .error cause => .error (.io p cause)
  | .ok text =>
    match ofText? text with
    | some s => .ok s
    | none => .error (.unreadable p)

/-- The directory that a file at a path needs, made if it is missing. -/
def makeParent (d : Disk) (p : Path) (now : Instant) : Except SettingsFault Unit × Disk :=
  match p.parent? with
  | none => (.ok (), d)
  | some parent =>
    if parent.text.isEmpty then (.ok (), d)
    else
      let (made, d) := d.makeDirectories parent now
      (made.mapError (SettingsFault.io parent), d)

/-- **The settings written to the file at a path,** in a directory that is made if it is missing. -/
def save (s : Settings) (d : Disk) (p : Path) (now : Instant) : Except SettingsFault Unit × Disk :=
  match makeParent d p now with
  | (.error fault, d) => (.error fault, d)
  | (.ok (), d) =>
    match d.write p s.toText.toUTF8.data.toList now with
    | .error cause => (.error (.io p cause), d)
    | .ok d => (.ok (), d)

end Settings

end AltRender

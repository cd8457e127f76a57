/-!
# `Command/Rule` — what can stand on the command line

The command line is a command with options and words. Which commands there are, what options each of
them takes and what they are for is one table; reading the command line and explaining it both go by
it.

An option has a kind, which says whether a value belongs to it and which values can; a command has a
table of its options and a rule for its words. The texts here are those that the program shows.
-/

set_option autoImplicit false

namespace AltRender.Command

/-- What an option takes, or asks for. -/
inductive Kind where
  /-- Nothing: it is there or not. -/
  | flag
  /-- Any text. -/
  | text
  /-- A path, which is not empty. -/
  | path
  /-- A theme. -/
  | theme
  /-- An explanation, instead of anything else. -/
  | help
  /-- The version, instead of anything else. -/
  | version
  deriving DecidableEq, Repr

/-- An option. Most can be left out. -/
structure OptionRule where
  name : String
  kind : Kind
  about : String
  isRequired : Bool := false
  deriving Repr

/-- The words a command takes. -/
inductive Words where
  | none
  | one (name about : String)
  /-- At least one. -/
  | several (name about : String)
  /-- None, or any number. -/
  | any (name about : String)
  deriving Repr

structure CommandRule where
  name : String
  about : String
  options : List OptionRule
  words : Words
  deriving Repr

def programName : String := "darkroom"

def programVersion : String := "0.3.0"

def programAbout : String := "Alt-text driven image filters with a disk cache"

/-! ## Options -/

def configOption : OptionRule :=
  { name := "config", kind := .path, about := "TOML configuration file" }

def vaultOption : OptionRule :=
  { name := "vault", kind := .path, about := "Vault root (overrides the configuration)" }

def cacheOption : OptionRule :=
  { name := "cache-dir", kind := .path,
    about := "Cache directory relative to the vault root (overrides the configuration)" }

def debugOption : OptionRule := { name := "debug", kind := .flag, about := "Verbose logging" }

def sharedOptions : List OptionRule := [configOption, vaultOption, cacheOption, debugOption]

def helpOption : OptionRule := { name := "help", kind := .help, about := "Print help" }

def versionOption : OptionRule := { name := "version", kind := .version, about := "Print version" }

/-! ## Commands -/

def altOption : OptionRule :=
  { name := "alt", kind := .text, about :=
    "Annotation text containing the directives", isRequired := true }

def themeOption : OptionRule :=
  { name := "theme", kind := .theme, about := "Target theme: dark or light" }

/-- The source whose entries are to be removed. -/
def fileOption : OptionRule :=
  { name := "file", kind := .text, about := "Only remove entries for this source" }

def writeOption : OptionRule :=
  { name := "write", kind := .flag, about := "Save it to the --config file" }

/-- What the program can be told to do. -/
inductive Verb where
  | render
  | parse
  | filters
  | clear
  | config
  deriving DecidableEq, Repr

def Verb.all : List Verb := [.render, .parse, .filters, .clear, .config]

def Verb.rule : Verb → CommandRule
  | .render =>
    ⟨"render", "Render images (vault-relative glob patterns or http(s) URLs)",
      [altOption, themeOption],
      .several "PATTERNS" "Images to render"⟩
  | .parse => ⟨"parse", "Show how an annotation is parsed", [], .one "TEXT" "Annotation text"⟩
  | .filters => ⟨"filters", "List registered filters", [], .none⟩
  | .clear => ⟨"clear", "Remove cache entries", [fileOption], .none⟩
  | .config => ⟨"config", "Print the effective configuration", [writeOption], .none⟩

/-- The command that explains the others. -/
def helpCommand : CommandRule :=
  ⟨"help", "Print this message or the help of the given subcommand(s)", [],
    .any "COMMAND" "Print help for the subcommand(s)"⟩

/-- What a command's name tells the program to do. -/
def verb? (name : String) : Option Verb :=
  Verb.all.find? fun v => v.rule.name = name

end AltRender.Command

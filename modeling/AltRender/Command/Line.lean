import AltRender.Command.Help
import AltRender.Disk.Path
import AltRender.Keyed
import AltRender.Theme

/-!
# `Command/Line` — the command line read

The command line is read from left to right. An option is `--name`, with its value behind an equals
sign or as the next argument, which may not look like an option itself; it may be given once.
Options that may stand anywhere can be given before the command and behind it, and behind it counts.
Two hyphens alone end the options. A request for help or for the version is answered as soon as it
is met, whatever follows it.

What is read is either a text to be shown or a task with its options. Reading stops at the first
argument that is out of place, and what is wrong is told with the option or the word that it is
about.
-/

set_option autoImplicit false

namespace AltRender.Command

open AltRender.Disk

/-! ## Faults -/

/-- Why a command line cannot be followed. -/
inductive UsageFault where
  | unknownOption (name : String)
  | unneededValue (name : String)
  | missingValue (name : String)
  | repeated (name : String)
  | badValue (name value : String)
  | unexpectedWord (word : String)
  | unknownCommand (name : String)
  | missingCommand
  | missing (name : String)
  deriving DecidableEq, Repr

def UsageFault.message : UsageFault → String
  | .unknownOption name => s!"unexpected argument '{name}' found"
  | .unneededValue name => s!"unexpected value for '--{name}' found; no more were expected"
  | .missingValue name => s!"a value is required for '--{name}' but none was supplied"
  | .repeated name => s!"the argument '--{name}' cannot be used multiple times"
  | .badValue name value => s!"invalid value '{value}' for '--{name}'"
  | .unexpectedWord word => s!"unexpected argument '{word}' found"
  | .unknownCommand name => s!"unrecognized subcommand '{name}'"
  | .missingCommand => "a subcommand is required"
  | .missing name => s!"the required argument '{name}' was not provided"

/-! ## Arguments -/

/-- What an argument looks like. -/
inductive Shape where
  /-- Two hyphens. -/
  | endOfOptions
  /-- Two hyphens and a name, and what stands behind an equals sign. -/
  | long (name : String) (value : Option String)
  /-- One hyphen and a letter. -/
  | short (letter : Char)
  /-- Anything else. -/
  | word (text : String)
  deriving DecidableEq, Repr

def shapeOf (argument : String) : Shape :=
  match argument.toList with
  | ['-', '-'] => .endOfOptions
  | '-' :: '-' :: rest =>
    let name := rest.takeWhile (· != '=')
    let value := match rest.drop name.length with
      | [] => none
      | _ :: value => some (String.ofList value)
    .long (String.ofList name) value
  | '-' :: letter :: _ => .short letter
  | _ => .word argument

/-- Whether an argument looks like an option and so cannot be the value of one. -/
def looksLikeOption (argument : String) : Bool :=
  match shapeOf argument with
  | .word _ => false
  | _ => true

/-- Whether an option can take a value. -/
def accepts (kind : Kind) (value : String) : Bool :=
  match kind with
  | .path => !value.isEmpty
  | .theme => (Theme.ofText value).toOption.isSome
  | _ => true

/-! ## One level -/

/-- The options and the number of words that can stand at a level; at the outer one a word is a
command. -/
structure Level where
  options : List OptionRule
  words : Nat
  isOuter : Bool

/-- What is read at a level. -/
inductive Reading where
  /-- All arguments: the options given, by name, and the words. -/
  | complete (given : Keyed String String) (words : List String)
  /-- A command, and the arguments behind it. -/
  | command (given : Keyed String String) (name : String) (rest : List String)
  | help
  | version

/-- An option given once more, which it may not have been before. -/
def give (given : Keyed String String) (o : OptionRule) (value : String) :
    Except UsageFault (Keyed String String) :=
  if !accepts o.kind value then .error (.badValue o.name value)
  else if given.contains o.name then .error (.repeated o.name)
  else .ok (given.insert o.name value)

/-- The words behind the end of the options. -/
def closing (l : Level) (given : Keyed String String) (words : List String) :
    Except UsageFault Reading :=
  match words.drop l.words with
  | [] => .ok (.complete given words)
  | word :: _ => .error (.unexpectedWord word)

/-- **The arguments of a level,** read from the first that is left. -/
def readLevel (l : Level) (given : Keyed String String) (words : List String) :
    List String → Except UsageFault Reading
  | [] => .ok (.complete given words)
  | argument :: rest =>
    match shapeOf argument with
    | .endOfOptions => closing l given (words ++ rest)
    | .short letter =>
      if letter = 'h' then .ok .help
      else if letter = 'V' && l.isOuter then .ok .version
      else .error (.unknownOption argument)
    | .word word =>
      if l.isOuter then .ok (.command given word rest)
      else if words.length < l.words then readLevel l given (words ++ [word]) rest
      else .error (.unexpectedWord word)
    | .long name value =>
      match l.options.find? fun o => o.name = name with
      | none => .error (.unknownOption argument)
      | some o =>
        match o.takesValue, value with
        | true, some value =>
          match give given o value with
          | .ok given => readLevel l given words rest
          | .error fault => .error fault
        | true, none =>
          match rest with
          | [] => .error (.missingValue name)
          | value :: rest =>
            if looksLikeOption value then .error (.missingValue name)
            else
              match give given o value with
              | .ok given => readLevel l given words rest
              | .error fault => .error fault
        | false, some _ => .error (.unneededValue name)
        | false, none =>
          -- Help and version are given at once: later arguments are not even looked at.
          if o.kind = .help then .ok .help
          else if o.kind = .version then .ok .version
          else
            match give given o "" with
            | .ok given => readLevel l given words rest
            | .error fault => .error fault

/-! ## Requests -/

/-- What the program is to do. -/
inductive Task where
  | render (patterns : List String) (alt : String) (theme : Option Theme)
  | parse (text : String)
  | filters
  | clear (file : Option String)
  | config (write : Bool)

/-- A task, and the options that may stand anywhere. -/
structure Request where
  config : Option Path
  vault : Option Path
  cacheDirectory : Option Path
  debug : Bool
  task : Task

/-- What a command line asks for: a text to be shown, or a task. -/
inductive Asked where
  | show (text : String)
  | request (r : Request)

def wordLimit (rest : List String) : Words → Nat
  | .none => 0
  | .one .. => 1
  | .several .. => rest.length
  | .any .. => rest.length

def renderTask (given : Keyed String String) (patterns : List String) : Except UsageFault Task :=
  match patterns, given.get? altOption.name with
  | [], _ => .error (.missing "<PATTERNS>...")
  | _, none => .error (.missing "--alt <ALT>")
  | patterns, some alt =>
    .ok (.render patterns alt ((given.get? themeOption.name).bind fun text =>
      (Theme.ofText text).toOption))

def taskOf (verb : Verb) (given : Keyed String String) (words : List String) :
    Except UsageFault Task :=
  match verb, words with
  | .render, patterns => renderTask given patterns
  | .parse, [] => .error (.missing "<TEXT>")
  | .parse, text :: _ => .ok (.parse text)
  | .filters, _ => .ok .filters
  | .clear, _ => .ok (.clear (given.get? fileOption.name))
  | .config, _ => .ok (.config (given.contains writeOption.name))

/-- The request of a task with the options before the command and behind it. -/
def requestOf (outer inner : Keyed String String) (task : Task) : Request :=
  let path (o : OptionRule) : Option Path :=
    ((inner.get? o.name).or (outer.get? o.name)).map Disk.Path.mk
  let debug := inner.contains debugOption.name || outer.contains debugOption.name
  ⟨path configOption, path vaultOption, path cacheOption, debug, task⟩

/-- The explanation of the command that `help` is asked about. -/
def explain : List String → Except UsageFault Asked
  | [] => .ok (.show programHelp)
  | [name] =>
    match verb? name with
    | some v => .ok (.show (commandHelp v.rule))
    | none =>
      if name = helpCommand.name then .ok (.show helpHelp) else .error (.unknownCommand name)
  | name :: next :: _ =>
    match verb? name with
    | some _ => .error (.unknownCommand next)
    | none => .error (.unknownCommand name)

/-- What a command with the arguments behind it asks for. -/
def readCommand (outer : Keyed String String) (v : Verb) (rest : List String) :
    Except UsageFault Asked :=
  let level : Level :=
    ⟨v.rule.options ++ sharedOptions ++ [helpOption], wordLimit rest v.rule.words, false⟩
  match readLevel level Keyed.empty [] rest with
  | .error fault => .error fault
  | .ok (.complete inner words) => (taskOf v inner words).map fun task =>
    .request (requestOf outer inner task)
  | .ok _ => .ok (.show (commandHelp v.rule))

/-- **What a command line asks for.** -/
def read (arguments : List String) : Except UsageFault Asked :=
  let level : Level := ⟨sharedOptions ++ [helpOption, versionOption], 0, true⟩
  match readLevel level Keyed.empty [] arguments with
  | .error fault => .error fault
  | .ok .help => .ok (.show programHelp)
  | .ok .version => .ok (.show versionLine)
  | .ok (.complete ..) => .error .missingCommand
  | .ok (.command outer name rest) =>
    if name = helpCommand.name then explain rest
    else
      match verb? name with
      | some v => readCommand outer v rest
      | none => .error (.unknownCommand name)

end AltRender.Command

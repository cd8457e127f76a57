import AltRender.Command.Rule
import AltRender.Text.Letters

/-!
# `Command/Help` — the command line explained

An explanation says what a command is for, how it is written, and what its words and options mean,
in two columns. Options are listed in the order of their tables, those of the command and those that
may stand anywhere taken alternately, by name where they have the same place.

None of this is text of its own: names, kinds and words come from the tables of `Command/Rule`, by
which the command line is read as well, so an explanation cannot leave out an option or show one
that is not there.
-/

set_option autoImplicit false

namespace AltRender.Command

open AltRender.Text

/-! ## Columns -/

/-- A text with blanks behind it up to a width. -/
def padded (width : Nat) (s : String) : String :=
  s ++ String.ofList (List.replicate (width - s.length) ' ')

def columns (rows : List (String × String)) : String :=
  let width := (rows.map fun r => r.1.length).foldl max 0
  String.join (rows.map fun r => "  " ++ padded width r.1 ++ "  " ++ r.2 ++ "\n")

/-- A heading and rows under it, behind an empty line; nothing if there are no rows. -/
def rowsUnder (heading : String) (rows : List (String × String)) : String :=
  if rows.isEmpty then "" else "\n" ++ heading ++ ":\n" ++ columns rows

/-! ## Options -/

/-- A name in capitals, with underscores between its parts. -/
def valueName (name : String) : String :=
  String.ofList <| name.toList.map fun c =>
    if c = '-' then '_' else if 'a' ≤ c && c ≤ 'z' then Char.ofNat (c.toNat - 32) else c

def OptionRule.takesValue (o : OptionRule) : Bool :=
  match o.kind with
  | .text | .path | .theme => true
  | .flag | .help | .version => false

def OptionRule.written (o : OptionRule) : String :=
  "--" ++ o.name ++ if o.takesValue then " <" ++ valueName o.name ++ ">" else ""

/-- The letter of an option and what follows it, or blanks of the same width. -/
def OptionRule.letter (o : OptionRule) : String :=
  match o.kind with
  | .help => "-h, "
  | .version => "-V, "
  | _ => "    "

def OptionRule.row (o : OptionRule) : String × String :=
  (o.letter ++ o.written, o.about)

/-- Whether the first of two options is listed first, by place and then by name. -/
def listedBefore (a b : Nat × OptionRule) : Bool :=
  a.1 < b.1 || (a.1 == b.1 && a.2.name ≤ b.2.name)

/-- The options of a command and the shared ones, in the order they are listed. -/
def optionsInOrder (own : List OptionRule) : List OptionRule :=
  let place (os : List OptionRule) : List (Nat × OptionRule) := (List.range os.length).zip os
  ((place own ++ place sharedOptions).mergeSort listedBefore).map Prod.snd

/-! ## Explanations -/

def Words.written : Words → String
  | .none => ""
  | .one name _ => " <" ++ name ++ ">"
  | .several name _ => " <" ++ name ++ ">..."
  | .any name _ => " [" ++ name ++ "]..."

def Words.rows : Words → List (String × String)
  | .none => []
  | .one name about => [("<" ++ name ++ ">", about)]
  | .several name about => [("<" ++ name ++ ">...", about)]
  | .any name about => [("[" ++ name ++ "]...", about)]

/-- The options that a command cannot do without, as they are written. -/
def requiredOptions (c : CommandRule) : String :=
  String.join ((c.options.filter OptionRule.isRequired).map fun o => " " ++ o.written)

def usageLine (c : CommandRule) : String :=
  "Usage: " ++ programName ++ " " ++ c.name ++ " [OPTIONS]" ++ requiredOptions c ++
    c.words.written ++ "\n"

/-- **The explanation of a command.** -/
def commandHelp (c : CommandRule) : String :=
  c.about ++ "\n\n" ++ usageLine c ++ rowsUnder "Arguments" c.words.rows ++
    rowsUnder "Options" ((optionsInOrder c.options ++ [helpOption]).map OptionRule.row)

def programHelp : String :=
  programAbout ++ "\n\nUsage: " ++ programName ++ " [OPTIONS] <COMMAND>\n" ++
    rowsUnder "Commands" ((Verb.all.map Verb.rule ++ [helpCommand]).map fun c =>
      (c.name, c.about)) ++
    rowsUnder "Options" ((sharedOptions ++ [helpOption, versionOption]).map OptionRule.row)

/-- The explanation of the command that explains the others, which takes no options. -/
def helpHelp : String :=
  helpCommand.about ++ "\n\nUsage: " ++ programName ++ " " ++ helpCommand.name ++
    helpCommand.words.written ++ "\n" ++
    rowsUnder "Arguments" helpCommand.words.rows

/-- The line that says which version this is. -/
def versionLine : String :=
  programName ++ " " ++ programVersion ++ "\n"

end AltRender.Command

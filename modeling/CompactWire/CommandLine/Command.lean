/-!
# CompactWire.CommandLine.Command — commands, their options and their help

A command is described by data: what it is for and which options it takes.  `Command.scan` reads the words behind a
command; `Command.help` is the text that explains it.

The rules of scanning: an option is `--name`, or `-x` if it has a letter, and letters can be joined; a value stands
behind `=` or is the next word, which must not look like an option; nothing may be given twice; `--` ends the options.
Words are looked at from left to right, so help that is asked for in front of a mistake is shown.
-/

namespace CompactWire.CommandLine

/-- What an option does. -/
inductive OptKind
  | flag
  /-- The option has a value, and these are the words that it can be. -/
  | value (accepts : String → Bool)
  | help
  | version

/-- An option of a command. -/
structure Opt where
  name : String
  letter : Option Char := none
  kind : OptKind := .flag
  /-- What the option is for. -/
  about : String := ""
  /-- The value that counts if none is given. -/
  fallback : Option String := none

/-- A command. -/
structure Command where
  /-- How the command is called. -/
  usage : String
  about : String
  /-- The commands it leads to, with what they are for. -/
  commands : List (String × String) := []
  /-- The words it takes, with what they are for. -/
  arguments : List (String × String) := []
  options : List Opt := []

/-- The options that were given, with their values. -/
abbrev Given := List (String × String)

/-- Why scanning ends before the last word. -/
inductive Stop
  | rejected
  | help
  | version
deriving DecidableEq

/-- Whether a word looks like an option; a single `-` does not. -/
def isOption (word : String) : Bool :=
  match word.toList with
  | '-' :: _ :: _ => true
  | _ => false

/-- Takes note of an option that is given. -/
def Opt.give (o : Opt) (value : String) (given : Given) : Except Stop Given :=
  match o.kind with
  | .help => .error .help
  | .version => .error .version
  | .flag => if given.any (·.1 = o.name) then .error .rejected else .ok ((o.name, value) :: given)
  | .value accepts =>
    if given.any (·.1 = o.name) || !accepts value then .error .rejected else .ok ((o.name, value) :: given)

/-- Whether an option has a value. -/
def Opt.hasValue (o : Opt) : Bool :=
  match o.kind with
  | .value _ => true
  | _ => false

namespace Command

/-- Reads letters that are joined behind a single dash.  No option with a letter has a value. -/
def scanLetters (c : Command) (given : Given) : List Char → Except Stop Given
  | [] => .ok given
  | letter :: letters =>
    match c.options.find? (·.letter = some letter) with
    | none => .error .rejected
    | some o => do c.scanLetters (← o.give "" given) letters

/-- Reads the options behind a command, up to the first word that is none; gives what was read and what is left. -/
def scan (c : Command) (given : Given) : List String → Except Stop (Given × List String)
  | [] => .ok (given, [])
  | word :: words =>
    match word.toList with
    | ['-', '-'] => if words.isEmpty then .ok (given, []) else .error .rejected
    | '-' :: '-' :: text =>
      let name := String.ofList (text.takeWhile (· != '='))
      match c.options.find? (·.name = name), text.dropWhile (· != '=') with
      | none, _ => .error .rejected
      | some o, _ :: value =>
        if o.hasValue then do c.scan (← o.give (String.ofList value) given) words else .error .rejected
      | some o, [] =>
        if o.hasValue then
          match words with
          | [] => .error .rejected
          | value :: words =>
            if isOption value then .error .rejected else do c.scan (← o.give value given) words
        else do c.scan (← o.give "" given) words
    | '-' :: letter :: letters => do c.scan (← c.scanLetters given (letter :: letters)) words
    | _ => .ok (given, word :: words)

end Command

/-! ## Help -/

/-- An option as it is listed: its letter, its name and the name of its value. -/
def Opt.heading (o : Opt) : String :=
  (match o.letter with
    | some letter => s!"-{letter}, --{o.name}"
    | none => s!"    --{o.name}") ++ (if o.hasValue then s!" <{o.name}>" else "")

/-- What an option is for, with the value that counts if none is given. -/
def Opt.description (o : Opt) : String :=
  match o.fallback with
  | some value => s!"{o.about} [default: {value}]"
  | none => o.about

/-- So many blanks. -/
def blanks (n : Nat) : String := String.ofList (List.replicate n ' ')

/-- Headings with their descriptions, two columns in; the descriptions stand in a column of their own. -/
def table (rows : List (String × String)) : String :=
  let width := (rows.map (·.1.length)).foldl max 0
  String.join (rows.map fun (heading, description) =>
    s!"  {heading}{blanks (width + 2 - heading.length)}{description}\n")

/-- A part of a help text: its title and what is listed under it.  A part that lists nothing is left out. -/
def part? (title : String) (rows : List (String × String)) : Option String :=
  if rows.isEmpty then none else some s!"{title}:\n{table rows}"

/-- The text that explains a command: its parts, with an empty line between them. -/
def Command.help (c : Command) : String :=
  let options := c.options.map fun o => (o.heading, o.description)
  let parts :=
    [ some s!"{c.about}\n", some s!"Usage: {c.usage}\n", part? "Commands" c.commands,
      part? "Arguments" c.arguments, part? "Options" options ]
  String.intercalate "\n" (parts.filterMap id)

end CompactWire.CommandLine

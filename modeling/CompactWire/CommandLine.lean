import CompactWire.CommandLine.Command
import CompactWire.Inspect

/-!
# CompactWire.CommandLine — the command line

Two commands print the records of a file: `footer` the one at its end, `dump` those in a range.  `parse` turns the words
of a command line into a request, a text to show, or a refusal; `answer` gives what is printed and the exit code: 0, or
1 if the file cannot be read as asked, or 2 if the words are refused.
-/

namespace CompactWire.CommandLine

/-- What is asked for. -/
inductive Request
  | footer (path : String) (magic : Bytes) (chunkSize : PosSize)
  | dump (path : String) (offset : Nat) (length : Option Nat) (message : Bool) (chunkSize : PosSize)

/-- What a command line means. -/
inductive Meaning
  | run (request : Request)
  | print (text : String)
  | rejected

/-! ## Values -/

/-- A decimal number of 64 bits, with a plus sign or without. -/
def number? (word : String) : Option Nat :=
  let digits := match word.toList with
    | '+' :: digits => digits
    | digits => digits
  if digits.isEmpty || !digits.all Char.isDigit then none
  else
    let n := digits.foldl (fun n c => 10 * n + (c.toNat - '0'.toNat)) 0
    if n < UInt64.size then some n else none

/-- A number that is not zero. -/
def size? (word : String) : Option PosSize := (number? word).bind PosSize.ofNat?

/-- A magic: text of four bytes. -/
def magic? (word : String) : Option Bytes :=
  let bytes := Utf8.encode word
  if bytes.length = 4 then some bytes else none

/-! ## Commands -/

def verboseOption : Opt := { name := "verbose", letter := some 'v' }

def helpOption : Opt := { name := "help", letter := some 'h', kind := .help, about := "Print help" }

def versionOption : Opt := { name := "version", letter := some 'V', kind := .version, about := "Print version" }

def fileOption : Opt :=
  { name := "file", kind := .value (· ≠ ""), about := "Path to the file to inspect" }

def magicOption : Opt :=
  { name := "magic", kind := .value (magic? · |>.isSome), about := "Magic bytes terminating the file",
    fallback := some "SLIP" }

def offsetOption : Opt :=
  { name := "offset", kind := .value (number? · |>.isSome), about := "Offset of the first record",
    fallback := some "0" }

def lengthOption : Opt :=
  { name := "length", kind := .value (number? · |>.isSome),
    about := "Number of bytes to decode (defaults to the rest of the file)" }

def messageOption : Opt := { name := "message", about := "Expect a message header before each record" }

def chunkSizeOption : Opt :=
  { name := "chunk-size", kind := .value (size? · |>.isSome),
    about := "Maximum bytes read from the file at a time (must be >= 1, defaults to 1 MiB)" }

/-- The name of the program. -/
def programName : String := "slipstream-inspector"

/-- The program and its version. -/
def versionText : String := s!"{programName} 0.0.1\n"

def footerCommand : Command where
  usage := s!"{programName} footer [OPTIONS] --file <file>"
  about := "Print the record located by the length and magic at the end of a file."
  options := [fileOption, verboseOption, magicOption, chunkSizeOption, helpOption]

def dumpCommand : Command where
  usage := s!"{programName} dump [OPTIONS] --file <file>"
  about := "Print every record stored back to back within a byte range of a file."
  options :=
    [fileOption, verboseOption, offsetOption, lengthOption, messageOption, chunkSizeOption, helpOption]

def helpCommand : Command where
  usage := s!"{programName} help [COMMAND]..."
  about := "Print this message or the help of the given subcommand(s)"
  arguments := [("[COMMAND]...", "Print help for the subcommand(s)")]

def mainCommand : Command where
  usage := s!"{programName} [OPTIONS] <COMMAND>"
  about := "Decode and print compact-encoded records stored in files."
  commands :=
    [("footer", footerCommand.about), ("dump", dumpCommand.about),
      ("help", helpCommand.about)]
  options := [verboseOption, helpOption, versionOption]

/-! ## Requests -/

/-- The value of an option: the one given, else the one that counts if none is. -/
def valueOf? (o : Opt) (given : Given) : Option String := (given.lookup o.name).or o.fallback

def chunkSizeOf (given : Given) : PosSize := ((valueOf? chunkSizeOption given).bind size?).getD PosSize.mebibyte

/-- The request for a footer. -/
def footerRequest? (given : Given) : Option Request := do
  let path ← valueOf? fileOption given
  let magic ← (← valueOf? magicOption given) |> magic?
  return .footer path magic (chunkSizeOf given)

/-- The request for a dump. -/
def dumpRequest? (given : Given) : Option Request := do
  let path ← valueOf? fileOption given
  let offset ← (← valueOf? offsetOption given) |> number?
  let length := (valueOf? lengthOption given).bind number?
  return .dump path offset length (given.any (·.1 = messageOption.name)) (chunkSizeOf given)

/-- What the words behind a command mean. -/
def parseCommand (c : Command) (request? : Given → Option Request) (words : List String) : Meaning :=
  match c.scan [] words with
  | .error .rejected => .rejected
  | .error .help => .print c.help
  | .error .version => .print versionText
  | .ok (_, _ :: _) => .rejected
  | .ok (given, []) =>
    match request? given with
    | some request => .run request
    | none => .rejected

/-- What a command line means. -/
def parse (words : List String) : Meaning :=
  match mainCommand.scan [] words with
  | .error .rejected => .rejected
  | .error .help => .print mainCommand.help
  | .error .version => .print versionText
  | .ok (_, []) => .rejected
  | .ok (_, "footer" :: words) => parseCommand footerCommand footerRequest? words
  | .ok (_, "dump" :: words) => parseCommand dumpCommand dumpRequest? words
  | .ok (_, ["help"]) => .print mainCommand.help
  | .ok (_, ["help", "footer"]) => .print footerCommand.help
  | .ok (_, ["help", "dump"]) => .print dumpCommand.help
  | .ok (_, ["help", "help"]) => .print helpCommand.help
  | .ok _ => .rejected

/-! ## Answers -/

/-- The path of the file that a request is about. -/
def Request.path : Request → String
  | footer path _ _ => path
  | dump path _ _ _ _ => path

/-- The text that a request asks for, with a pool of its own. -/
def Request.run (request : Request) (file : File) : Except Failure String :=
  let x := match request with
    | footer _ magic chunkSize => Inspect.footer { chunkSize } magic file
    | dump _ offset length message chunkSize => Inspect.dump { chunkSize } offset length message file
  match x (Pool.new .standard) with
  | .ok text _ => .ok text
  | .error failure _ => .error failure

/-- What is printed, and the exit code. -/
structure Answer where
  printed : String
  exitCode : Nat

/-- The answer to a request about a file. -/
def Request.answer (request : Request) (file : File) : Answer :=
  match request.run file with
  | .ok text => ⟨text, 0⟩
  | .error (.aborted _) => ⟨"", 101⟩
  | .error _ => ⟨"", 1⟩

/-- The answer to a command line, where `files` are the files at hand. -/
def answer (files : String → File) (words : List String) : Answer :=
  match parse words with
  | .run request => request.answer (files request.path)
  | .print text => ⟨text, 0⟩
  | .rejected => ⟨"", 2⟩

end CompactWire.CommandLine

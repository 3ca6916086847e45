import CompactWire.CommandLine

/-!
# CompactWire.Main — the program

Reads the file that a command line names, prints the answer and ends with its exit code.
-/

namespace CompactWire.CommandLine

/-- The file at a path. -/
def fileAt (path : String) : IO File := do
  try
    return some (← IO.FS.readBinFile path).toList
  catch _ =>
    return none

end CompactWire.CommandLine

open CompactWire CommandLine in
def main (words : List String) : IO UInt32 := do
  let file ← match parse words with
    | .run request => fileAt request.path
    | _ => pure none
  let answer := answer (fun _ => file) words
  IO.print answer.printed
  return answer.exitCode.toUInt32

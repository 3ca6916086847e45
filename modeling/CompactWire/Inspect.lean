import CompactWire.Render
import CompactWire.Trailer

/-!
# CompactWire.Inspect — the records of a file as text

Two layouts can be shown: a footer that the end of the file points at, and records one after the other in a range, each
behind a message header if asked for.
-/

namespace CompactWire.Inspect

/-- The footer of a file, under a line that tells where it lies. -/
def footer (options : FetchOptions) (magic : Bytes) (file : File) : EStateM Failure Pool String := do
  let l ← Trailer.locate options magic file
  let record ← Trailer.readAt options l file
  return s!"footer @ {l.offset} ({l.length} bytes)\n{record.render}\n"

/-- The next record as text, behind its message header if `message` asks for one. -/
def entry (options : FetchOptions) (message : Bool) : Fetching FileSource String := do
  if message then
    let (header, record) ← Fetch.message options
    return s!"{header.render}\n{record.render}\n"
  else
    let record ← Fetch.record options
    return s!"{record.render}\n"

/-- The records of what is left of a range, each under a line with its number and position.  A record takes a byte at
least, so as many rounds as bytes are left are enough.  Behind every record the next number is made, also behind the last
one. -/
def entries (options : FetchOptions) (message : Bool) (index : Nat) : (rounds : Nat) → Fetching FileSource String
  | 0 => return ""
  | rounds + 1 => do
    let (source, _) ← get
    if source.remaining = 0 then return ""
    let text ← entry options message
    if maxCount < index + 1 then throw (.aborted .overflow)
    let rest ← entries options message (index + 1) rounds
    return s!"record {index} @ {source.position}\n" ++ text ++ rest

/-- The records in `length` bytes of a file from `offset` on, to the end of the file if no length is given. -/
def dump (options : FetchOptions) (offset : Nat) (length : Option Nat) (message : Bool) (file : File) :
    EStateM Failure Pool String := do
  let contents ← Trailer.openFile file
  let size := contents.length
  let length := length.getD (size - offset)
  let stop := min (offset + length) FileSource.maxOffset
  if size < stop then throw (.rangeOutOfBounds offset stop size)
  Trailer.within (FileSource.range contents offset length) (entries options message 0 length)

end CompactWire.Inspect

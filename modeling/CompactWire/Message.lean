import CompactWire.Record

/-!
# CompactWire.Message — messages, a header and a record each

A message is written and read with the calls for its header and for its record.  Nothing stands between the two, and
nothing between one message and the next.
-/

namespace CompactWire

/-- A header and the record behind it. -/
abbrev Message := MessageHeader × Record

namespace Message

/-- Writes a message behind what was written before. -/
def write (m : Message) : Writing Unit := do
  Writer.messageBegin m.1
  Writer.record m.2

/-- What a new writer has written once it is given a message. -/
def bytes (m : Message) : Bytes :=
  match write m {} with
  | .ok _ w | .error _ w => w.out.toList

variable {ι span : Type} [Input ι span]

/-- Reads a message. -/
def read : Reading ι Message := do
  let header ← Reader.messageBegin
  let record ← Reader.record
  return (header, record)

/-- Reads a message with a reader of its own. -/
def readAlone (limits : Limits) : EStateM Error ι Message := fun input =>
  match read { input, limits } with
  | .ok m r => .ok m r.input
  | .error e r => .error e r.input

end Message

end CompactWire

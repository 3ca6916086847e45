import CompactWire.Buffer.Region

/-!
# CompactWire.Buffer — a buffer that is filled behind and read in front

A buffer is its storage cut in three: the bytes already taken, the bytes ready to be taken, and the spare room.  Bytes
are appended where the spare room begins, either copied (`put`) or written there first (`write`) and published later
(`commit`), and taken from the front of the ready ones.  Room that was taken is not used again.

A call that asks for more than there is fails and changes nothing.
-/

namespace CompactWire

/-- A buffer on loan from a pool. -/
structure Buffer where
  /-- The bytes taken, the latest first. -/
  taken : Bytes := []
  /-- The bytes that can be taken. -/
  ready : Bytes := []
  /-- The room behind them. -/
  spare : Region
  /-- The size class that the storage goes back to; a buffer without one goes back to none. -/
  sizeClass : Option Nat

namespace Buffer

/-- Why a call on a buffer fails. -/
inductive Fault
  | commitPastEnd
  | consumePastEnd
  | advancePastEnd
  | nothingReady
deriving DecidableEq

/-- The words of a fault. -/
def Fault.message : Fault → String
  | commitPastEnd => "commit past end of buffer"
  | consumePastEnd => "consume past end of buffer"
  | advancePastEnd => "advance past end of buffer"
  | nothingReady => "advance out of bounds: the len is 0 but advancing by 1"

/-- A buffer over the given storage. -/
def ofStorage (storage : Region) (sizeClass : Option Nat) : Buffer := { spare := storage, sizeClass }

/-- The number of bytes taken. -/
def cursor (b : Buffer) : Nat := b.taken.length

/-- The number of bytes appended so far, those taken included. -/
def filled (b : Buffer) : Nat := b.cursor + b.ready.length

/-- The number of bytes that can be taken. -/
def length (b : Buffer) : Nat := b.ready.length

/-- The number of bytes that can be appended. -/
def room (b : Buffer) : Nat := b.spare.size

/-- The number of bytes that the storage holds. -/
def capacity (b : Buffer) : Nat := b.filled + b.room

/-- The storage as a whole. -/
def storage (b : Buffer) : Region :=
  ⟨b.taken.reverse ++ b.ready ++ b.spare.written, b.spare.zeros⟩

/-- Appends as many bytes as fit; the result tells how many. -/
def put (bytes : Bytes) (b : Buffer) : Nat × Buffer :=
  let n := min bytes.length b.room
  (n, { b with ready := b.ready ++ bytes.take n, spare := b.spare.drop n })

/-- Writes as many bytes as fit into the spare room, without appending them. -/
def write (bytes : Bytes) (b : Buffer) : Buffer := { b with spare := b.spare.overwrite bytes }

/-- Appends the first `n` bytes of the spare room as they stand. -/
def commit (n : Nat) (b : Buffer) : Except Fault Buffer :=
  if b.room < n then .error .commitPastEnd
  else .ok { b with ready := b.ready ++ b.spare.take n, spare := b.spare.drop n }

/-- Moves on past `n` bytes. -/
def skip (n : Nat) (b : Buffer) : Buffer :=
  { b with taken := (b.ready.take n).reverse ++ b.taken, ready := b.ready.drop n }

/-- Takes the next `n` bytes. -/
def consume (n : Nat) (b : Buffer) : Except Fault (Bytes × Buffer) :=
  if b.length < n then .error .consumePastEnd else .ok (b.ready.take n, b.skip n)

/-- Takes the next `n` bytes without looking at them. -/
def advance (n : Nat) (b : Buffer) : Except Fault Buffer :=
  if b.length < n then .error .advancePastEnd else .ok (b.skip n)

/-- Takes the next byte. -/
def next (b : Buffer) : Except Fault (UInt8 × Buffer) :=
  match b.ready with
  | [] => .error .nothingReady
  | byte :: ready => .ok (byte, { b with taken := byte :: b.taken, ready })

/-- The state of a buffer as text; `tracked` tells whether its storage goes back to a pool. -/
def describe (tracked : Bool) (b : Buffer) : String :=
  s!"PooledBuf \x7b cursor: {b.cursor}, len: {b.filled}, capacity: {b.capacity}, tracked: {tracked} \x7d"

end Buffer

end CompactWire

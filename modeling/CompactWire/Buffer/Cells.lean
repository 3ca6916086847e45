import CompactWire.Buffer

/-!
# CompactWire.Buffer.Cells — a buffer by its indices

The same buffer as in `Buffer`, kept as its storage and two indices into it: the bytes before `cursor` are taken, and
those before `len` are filled.  Lengths are differences of indices, and bytes are slices of the storage.  A difference
below zero, a slice that is not inside what it is taken from, and an assertion that does not hold break off a call; a
`Breach` tells which of them it was.
-/

namespace CompactWire

/-- A check that does not hold. -/
inductive Breach
  /-- A difference is below zero. -/
  | underflow
  /-- An index or a slice is not inside. -/
  | outOfRange
  | assertion (fault : Buffer.Fault)
  /-- A round of copying copies nothing. -/
  | standstill
  /-- There are more rounds of copying than bytes to copy. -/
  | endless
deriving DecidableEq

/-- A result, or the check that broke it off. -/
abbrev Checked := Except Breach

namespace Checked

/-- A difference. -/
def sub (a b : Nat) : Checked Nat := if a < b then throw .underflow else return a - b

/-- The bytes from `start` up to `stop`. -/
def slice (bytes : Bytes) (start stop : Nat) : Checked Bytes :=
  if start ≤ stop ∧ stop ≤ bytes.length then return (bytes.take stop).drop start else throw .outOfRange

end Checked

/-- Writes bytes from `start` on, as many as fit. -/
def Region.write (start : Nat) (bytes : Bytes) (r : Region) : Region :=
  let rest := (r.drop start).overwrite bytes
  ⟨r.take start ++ rest.written, rest.zeros⟩

/-- A buffer as its storage and indices into it. -/
structure Cells where
  storage : Region
  /-- Where the bytes begin that can be taken. -/
  cursor : Nat := 0
  /-- Where the room begins that can be filled. -/
  len : Nat := 0
  /-- The size class that the storage goes back to. -/
  sizeClass : Option Nat

namespace Cells

/-- A buffer by its indices. -/
def of (b : Buffer) : Cells := ⟨b.storage, b.cursor, b.filled, b.sizeClass⟩

/-- The buffer with these indices. -/
def buffer (c : Cells) : Buffer where
  taken := (c.storage.take c.cursor).reverse
  ready := (c.storage.take c.len).drop c.cursor
  spare := c.storage.drop c.len
  sizeClass := c.sizeClass

/-- The number of bytes that can be taken. -/
def length (c : Cells) : Checked Nat := Checked.sub c.len c.cursor

/-- The number of bytes that can be appended. -/
def room (c : Cells) : Checked Nat := Checked.sub c.storage.size c.len

/-- The bytes that can be taken. -/
def chunk (c : Cells) : Checked Bytes := Checked.slice c.storage.toList c.cursor c.len

/-- Writes bytes into the first `n` places that can be filled, without appending them. -/
def write (n : Nat) (bytes : Bytes) (c : Cells) : Checked Cells :=
  if c.len ≤ c.storage.size ∧ n ≤ c.storage.size - c.len ∧ bytes.length ≤ n then
    return { c with storage := c.storage.write c.len bytes }
  else throw .outOfRange

/-- Appends as many bytes as fit; the result tells how many. -/
def put (bytes : Bytes) (c : Cells) : Checked (Nat × Cells) := do
  let n := min bytes.length (← c.room)
  let c ← c.write n (← Checked.slice bytes 0 n)
  return (n, { c with len := c.len + n })

/-- Appends the first `n` bytes of the room as they stand. -/
def commit (n : Nat) (c : Cells) : Checked Cells := do
  if (← c.room) < n then throw (.assertion .commitPastEnd)
  return { c with len := c.len + n }

/-- Takes the next `n` bytes. -/
def consume (n : Nat) (c : Cells) : Checked (Bytes × Cells) := do
  if (← c.length) < n then throw (.assertion .consumePastEnd)
  let bytes ← Checked.slice c.storage.toList c.cursor (c.cursor + n)
  return (bytes, { c with cursor := c.cursor + n })

/-- Takes the next `n` bytes without looking at them. -/
def advance (n : Nat) (c : Cells) : Checked Cells := do
  if (← c.length) < n then throw (.assertion .advancePastEnd)
  return { c with cursor := c.cursor + n }

/-- Takes the next byte. -/
def next (c : Cells) : Checked (UInt8 × Cells) := do
  if (← c.length) < 1 then throw (.assertion .nothingReady)
  match (← c.chunk)[0]? with
  | none => throw .outOfRange
  | some byte => return (byte, ← c.advance 1)

end Cells

end CompactWire

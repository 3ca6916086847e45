import CompactWire.Buffer.Call
import CompactWire.Buffer.Cells

/-!
# CompactWire.Buffer.InPlace — the calls of a buffer, step by step

A buffer is its storage and two indices into it (`Cells`), and a call on it is a row of steps: looks at the buffer,
which can fail, and changes of its storage or of one index.  A step that fails breaks the call off, and what was changed
before it stays changed.

* `Call.perform` is a call as the row of its steps.
* `Call.fault?`, `Call.gives` and `Call.leaves` say at once what should come of it.
* `Passage` follows a buffer through any calls, and keeps all bytes that were appended to it and all that were taken.
-/

namespace CompactWire

namespace Cells

/-- The bytes that can be taken. -/
def ready (c : Cells) : Bytes := (c.storage.toList.take c.len).drop c.cursor

/-- A row of steps on a buffer. -/
abbrev InPlace := EStateM Breach Cells

namespace InPlace

/-- Looks at the buffer. -/
def look {α : Type} (f : Cells → Checked α) : InPlace α := fun c =>
  match f c with
  | .ok a => .ok a c
  | .error breach => .error breach c

/-- Writes bytes into the first `n` places that can be filled. -/
def write (n : Nat) (bytes : Bytes) : InPlace Unit := do
  set (← look (Cells.write n bytes))

/-- Moves the end of the bytes that can be taken. -/
def fill (n : Nat) : InPlace Unit := modify fun c => { c with len := c.len + n }

/-- Moves the start of the bytes that can be taken. -/
def drain (n : Nat) : InPlace Unit := modify fun c => { c with cursor := c.cursor + n }

/-- Appends as many bytes as fit; the result tells how many. -/
def put (bytes : Bytes) : InPlace Nat := do
  let n := min bytes.length (← look room)
  write n (← look fun _ => Checked.slice bytes 0 n)
  fill n
  return n

/-- Writes as many bytes as fit into the room, without appending them.  Bytes that go further back in the room
follow those that stand in front of them there. -/
def overwrite (bytes : Bytes) : InPlace Unit := do
  let n := min bytes.length (← look room)
  write n (bytes.take n)

/-- Appends the first `n` bytes of the room as they stand. -/
def commit (n : Nat) : InPlace Unit := do
  if (← look room) < n then throw (.assertion .commitPastEnd)
  fill n

/-- Takes the next `n` bytes.  The index has moved on by the time that the bytes are cut out of the storage. -/
def consume (n : Nat) : InPlace Bytes := do
  if (← look Cells.length) < n then throw (.assertion .consumePastEnd)
  let start := (← get).cursor
  drain n
  look fun c => Checked.slice c.storage.toList start c.cursor

/-- Takes the next `n` bytes without looking at them. -/
def advance (n : Nat) : InPlace Unit := do
  if (← look Cells.length) < n then throw (.assertion .advancePastEnd)
  drain n

/-- Takes the next byte. -/
def next : InPlace UInt8 := do
  if (← look Cells.length) < 1 then throw (.assertion .nothingReady)
  match (← look chunk)[0]? with
  | none => throw .outOfRange
  | some byte =>
    advance 1
    return byte

end InPlace

end Cells

namespace Buffer

open Cells (InPlace)

/-- A call in place. -/
def Call.perform : Call → InPlace Answer
  | .put bytes => return .count (← InPlace.put bytes)
  | .write bytes => do InPlace.overwrite bytes; return .done
  | .commit n => do InPlace.commit n; return .done
  | .consume n => return .bytes (← InPlace.consume n)
  | .advance n => do InPlace.advance n; return .done
  | .next => return .bytes [← InPlace.next]

/-- Why a call is broken off. -/
def Call.fault? (c : Cells) : Call → Option Fault
  | .put _ | .write _ => none
  | .commit n => if c.storage.size - c.len < n then some .commitPastEnd else none
  | .consume n => if c.len - c.cursor < n then some .consumePastEnd else none
  | .advance n => if c.len - c.cursor < n then some .advancePastEnd else none
  | .next => if c.len = c.cursor then some .nothingReady else none

/-- What a call gives that is not broken off. -/
def Call.gives (c : Cells) : Call → Answer
  | .put bytes => .count (min bytes.length (c.storage.size - c.len))
  | .consume n => .bytes (c.ready.take n)
  | .next => .bytes (c.ready.take 1)
  | .write _ | .commit _ | .advance _ => .done

/-- What a call leaves that is not broken off. -/
def Call.leaves (c : Cells) : Call → Cells
  | .put bytes =>
    let n := min bytes.length (c.storage.size - c.len)
    { c with storage := c.storage.write c.len (bytes.take n), len := c.len + n }
  | .write bytes => { c with storage := c.storage.write c.len bytes }
  | .commit n => { c with len := c.len + n }
  | .consume n | .advance n => { c with cursor := c.cursor + n }
  | .next => { c with cursor := c.cursor + 1 }

/-- The bytes that a call appended to the buffer `c`, as its answer tells. -/
def Call.appended (c : Cells) : Call → Answer → Bytes
  | .put bytes, .count n => bytes.take n
  | .commit n, _ => (c.storage.toList.drop c.len).take n
  | _, _ => []

/-- The bytes that a call took from the buffer `c`: those it gave, or those it went past. -/
def Call.taken (c : Cells) : Call → Answer → Bytes
  | .consume _, .bytes bytes | .next, .bytes bytes => bytes
  | .advance n, _ => c.ready.take n
  | _, _ => []

/-- A buffer, and what has gone through it. -/
structure Passage where
  cells : Cells
  /-- All bytes that were appended. -/
  appended : Bytes := []
  /-- All bytes that were taken. -/
  taken : Bytes := []

namespace Passage

/-- The next call. -/
def after (p : Passage) (call : Call) : Passage :=
  match call.perform p.cells with
  | .ok answer cells =>
    { cells
      appended := p.appended ++ call.appended p.cells answer
      taken := p.taken ++ call.taken p.cells answer }
  | .error _ cells => { p with cells }

/-- A new buffer over the given storage, after some calls. -/
def through (storage : Region) (sizeClass : Option Nat) (calls : List Call) : Passage :=
  calls.foldl after { cells := { storage, sizeClass } }

end Passage

end Buffer

end CompactWire

import CompactWire.Buffer.Cells
import CompactWire.Source.File
import CompactWire.Source.Memory

/-!
# CompactWire.Source.Use — the history of a source

`SourceUse` names what is done to a source by whoever holds it, so that a history is data: chunks are asked for, of any
size and from any pool, and buffers are handed back, in any order and whether or not they came from this source.

A `Place` tells where a source stands in the range that it serves.  Before a chunk is read, a pool lends a buffer for it;
if the storage that this would take cannot be made, the call is broken off (`Source.request`).
-/

namespace CompactWire

/-- A use of a source. -/
inductive SourceUse
  /-- A chunk of at most so many bytes is asked for.  The pool is as other users have left it. -/
  | read (max : Nat) (pool : Pool)
  /-- A buffer is handed back: a chunk of this source, one of another, or any other buffer. -/
  | release (chunk : Buffer)

/-- Where a source stands in the range that it serves. -/
structure Place where
  /-- The bytes that positions count in. -/
  data : Bytes
  start : Nat
  /-- The position of the next byte. -/
  position : Nat
  /-- The position behind the last byte of the range. -/
  stop : Nat
  /-- The most bytes that come in a chunk, however many are asked for. -/
  chunkSize : Option PosSize

namespace Place

/-- The number of bytes left in the range, unless the position is behind them. -/
def remaining (p : Place) : Checked Nat := Checked.sub p.stop p.position

/-- The number of bytes in the next chunk. -/
def portion (p : Place) (max : Nat) : Nat :=
  min (p.stop - p.position) (p.chunkSize.elim max fun size => min max size.val)

/-- The buffer that a pool has to lend for the next chunk, if there is one. -/
def loan (p : Place) (max : Nat) : Option Nat := if p.portion max = 0 then none else some (p.portion max)

/-- The place `n` bytes further on. -/
def advance (n : Nat) (p : Place) : Place := { p with position := p.position + n }

/-- The place `n` bytes back, but not before the start. -/
def rewind (n : Nat) (p : Place) : Place := { p with position := max (p.position - n) p.start }

end Place

/-- What a medium reports is an error. -/
def Source.reported {τ α : Type} : EStateM.Result IoFault τ α → EStateM.Result Error τ α
  | .ok a t => .ok a t
  | .error fault t => .error (.io fault) t

/-- Asks for a chunk of at most `max` bytes, for which a pool has to lend a buffer of the size `loan`. -/
def Source.request {σ : Type} [Source σ] (loan : Option Nat) (max : Nat) :
    EStateM Error (σ × Pool) (Option Buffer) := fun (s, pool) =>
  match loan.filter fun length => Region.maxSize < pool.made length with
  | some length => .error (.aborted .capacity) (s, pool.broken length)
  | none => reported (Source.readChunk max (s, pool))

/-- A source after the next use, which may have failed.  `place` tells where it stands. -/
def SourceUse.after {σ : Type} [Source σ] (place : σ → Place) (s : σ) : SourceUse → σ
  | read max pool =>
    match Source.request ((place s).loan max) max (s, pool) with
    | .ok _ (s, _) | .error _ (s, _) => s
  | release chunk => Source.release chunk s

namespace MemorySource

/-- Where a source stands; its range are all of its bytes. -/
def place (s : MemorySource) : Place := ⟨s.data, 0, s.position, s.data.length, some s.chunkSize⟩

end MemorySource

namespace FileSource

/-- Where a source stands. -/
def place (s : FileSource) : Place := ⟨s.contents, s.start, s.position, s.stop, none⟩

/-- Why the next `n` bytes can not be read from the file, if so. -/
def fault? (n : Nat) (s : FileSource) : Option IoFault :=
  if 1 <<< 63 ≤ s.position then some .offsetOutOfRange
  else if s.contents.length < s.position + n then some .truncated
  else none

end FileSource

end CompactWire

import CompactWire.Error
import CompactWire.Pool

/-!
# CompactWire.Source — streams that come in chunks

A source delivers a stream of bytes in chunks, each in a buffer lent by a pool.  A chunk is handed back when it is no
longer needed; the bytes that were not taken from it go back to the stream, so the next chunk begins with them.  The
source only keeps its books: the buffer itself goes back to the pool through whoever held it.
-/

namespace CompactWire

/-- Sources of type `σ`. -/
class Source (σ : Type) where
  /-- The next chunk of at most so many bytes, or nothing at the end of the stream. -/
  readChunk : Nat → EStateM IoFault (σ × Pool) (Option Buffer)
  /-- Takes note of a chunk that is handed back. -/
  release : Buffer → σ → σ
  /-- A bound on the number of bytes that are still to come. -/
  remaining : σ → Nat

end CompactWire

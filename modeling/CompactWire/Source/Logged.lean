import CompactWire.Source

/-!
# CompactWire.Source.Logged — a source that keeps a log

`Logged σ` behaves as the source inside it and keeps a log of what happens there: what every call for a chunk gave, and
what is handed back.  `Turn` is one call and all that came of it, as it should stand in a log: a chunk is handed back
before anything else happens.
-/

namespace CompactWire

/-- What happens at a source. -/
inductive SourceEvent
  /-- A chunk is read. -/
  | chunk (b : Buffer)
  /-- There is no chunk to read, the stream has ended. -/
  | ended
  /-- A chunk fails to be read. -/
  | failed (fault : IoFault)
  /-- A chunk is handed back. -/
  | released (b : Buffer)

namespace SourceEvent

/-- Whether a chunk is read. -/
def isChunk : SourceEvent → Bool
  | chunk _ => true
  | _ => false

/-- Whether a chunk is handed back. -/
def isRelease : SourceEvent → Bool
  | released _ => true
  | _ => false

end SourceEvent

/-- A call for a chunk, and what came of it. -/
inductive Turn
  | ended
  | failed (fault : IoFault)
  /-- A chunk, which was handed back when so many bytes of it were taken. -/
  | served (chunk : Buffer) (taken : Nat)

namespace Turn

/-- What stands in the log. -/
def events : Turn → List SourceEvent
  | ended => [.ended]
  | failed fault => [.failed fault]
  | served chunk taken => [.chunk chunk, .released (chunk.skip taken)]

/-- Nothing was left unread. -/
def Exhausted : Turn → Prop
  | served chunk taken => (chunk.skip taken).ready = []
  | _ => True

end Turn

/-- A source and what has happened there, the latest last. -/
structure Logged (σ : Type) where
  source : σ
  log : List SourceEvent := []

namespace Logged

variable {σ : Type} [Source σ]

/-- Reads a chunk from the source inside. -/
def readChunk (max : Nat) : EStateM IoFault (Logged σ × Pool) (Option Buffer) := fun (s, pool) =>
  match Source.readChunk max (s.source, pool) with
  | .ok (some chunk) (source, pool) => .ok (some chunk) (⟨source, s.log ++ [.chunk chunk]⟩, pool)
  | .ok none (source, pool) => .ok none (⟨source, s.log ++ [.ended]⟩, pool)
  | .error fault (source, pool) => .error fault (⟨source, s.log ++ [.failed fault]⟩, pool)

instance : Source (Logged σ) where
  readChunk := readChunk
  release chunk s := ⟨Source.release chunk s.source, s.log ++ [.released chunk]⟩
  remaining s := Source.remaining s.source

end Logged

end CompactWire

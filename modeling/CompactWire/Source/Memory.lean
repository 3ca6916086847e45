import CompactWire.Source

/-!
# CompactWire.Source.Memory — bytes in memory as a source

The bytes come in chunks of at most `chunkSize`, however many are asked for; small chunks make spans straddle them.
-/

namespace CompactWire

/-- A byte string that is served in chunks. -/
structure MemorySource where
  data : Bytes
  chunkSize : PosSize
  /-- How many bytes were served. -/
  position : Nat := 0
  /-- Chunks read and not yet handed back. -/
  outstanding : Nat := 0
  /-- Chunks read. -/
  reads : Nat := 0

namespace MemorySource

/-- The next chunk, if there is storage for it (`Source.request`). -/
def readChunk (max : Nat) : EStateM IoFault (MemorySource × Pool) (Option Buffer) := fun (s, pool) =>
  let length := min (s.data.length - s.position) (min max s.chunkSize.val)
  if length = 0 then .ok none (s, pool)
  else
    let (chunk, pool) := pool.alloc length
    let (copied, chunk) := chunk.put ((s.data.drop s.position).take length)
    .ok (some chunk) ({ s with
      position := s.position + copied
      outstanding := s.outstanding + 1
      reads := s.reads + 1 }, pool)

/-- Goes back by what was not taken from a chunk, to the start of the bytes at most. -/
def release (chunk : Buffer) (s : MemorySource) : MemorySource :=
  { s with position := s.position - chunk.length, outstanding := s.outstanding - 1 }

instance : Source MemorySource where
  readChunk := readChunk
  release := release
  remaining s := s.data.length - s.position

end MemorySource

end CompactWire

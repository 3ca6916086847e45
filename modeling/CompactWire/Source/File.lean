import CompactWire.Source

/-!
# CompactWire.Source.File — a range of a file as a source

The range runs from `start` up to `stop` and may go on past the end of the file; a chunk that would do so is an error
and leaves the position where it is.  Offsets are numbers of 64 bits, and a file can be positioned at those below
`2 ^ 63` only.
-/

namespace CompactWire

/-- What a path leads to: the bytes of a file, or no file. -/
abbrev File := Option Bytes

/-- The bytes of a file. -/
def File.read (f : File) : Except IoFault Bytes :=
  match f with
  | some contents => .ok contents
  | none => .error .notFound

/-- A range of a file that is served in chunks. -/
structure FileSource where
  contents : Bytes
  start : Nat
  /-- The offset of the next byte. -/
  position : Nat
  /-- The offset behind the last byte. -/
  stop : Nat

namespace FileSource

/-- The greatest offset. -/
def maxOffset : Nat := UInt64.size - 1

/-- So many bytes from an offset on; the range ends at the greatest offset at the latest. -/
def range (contents : Bytes) (offset limit : Nat) : FileSource :=
  ⟨contents, offset, offset, min (offset + limit) maxOffset⟩

/-- A file from its start to its end. -/
def whole (contents : Bytes) : FileSource := range contents 0 contents.length

/-- The number of bytes left in the range. -/
def remaining (s : FileSource) : Nat := s.stop - s.position

/-- The next chunk, if there is storage for it (`Source.request`).  The buffer of a chunk that fails goes back with
whatever was read into it. -/
def readChunk (max : Nat) : EStateM IoFault (FileSource × Pool) (Option Buffer) := fun (s, pool) =>
  let length := min s.remaining max
  if length = 0 then .ok none (s, pool)
  else
    let (chunk, pool) := pool.alloc length
    if 1 <<< 63 ≤ s.position then .error .offsetOutOfRange (s, pool.release chunk)
    else
      let bytes := (s.contents.drop s.position).take length
      let chunk := chunk.write bytes
      if bytes.length < length then .error .truncated (s, pool.release chunk)
      else match chunk.commit length with
        | .ok chunk => .ok (some chunk) ({ s with position := s.position + length }, pool)
        | .error fault => .error (.assertion fault) (s, pool.release chunk)

/-- Goes back by what was not taken from a chunk, to the start of the range at most. -/
def release (chunk : Buffer) (s : FileSource) : FileSource :=
  if chunk.length = 0 then s else { s with position := max (s.position - chunk.length) s.start }

instance : Source FileSource where
  readChunk := readChunk
  release := release
  remaining s := min s.stop s.contents.length - s.position

end FileSource

end CompactWire

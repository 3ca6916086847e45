import CompactWire.Fetch
import CompactWire.Source.File

/-!
# CompactWire.Trailer — the record at the end of a file

The last eight bytes of a file say where its footer lies: four bytes hold the length of the record before them, as a
signed number with the least significant byte first, and four bytes are a magic that tells such files from others.
-/

namespace CompactWire.Trailer

/-- The number of bytes behind the footer. -/
def size : Nat := 8

/-- The bytes behind a footer of the given length. -/
def bytes (length : Nat) (magic : Bytes) : Bytes := Bytes.littleEndian 4 length ++ magic

/-- Where a footer lies in its file. -/
structure Location where
  offset : Nat
  length : Nat
deriving DecidableEq

/-- Reads a file, whose absence is a failure. -/
def openFile (file : File) : EStateM Failure Pool Bytes :=
  match file.read with
  | .ok contents => return contents
  | .error fault => throw (.io fault)

/-- Reads from a range of a file. -/
def within {α : Type} (source : FileSource) (x : Fetching FileSource α) : EStateM Failure Pool α := fun pool =>
  match x (source, pool) with
  | .ok a (_, pool) => .ok a pool
  | .error e (_, pool) => .error e pool

/-- Finds the footer of a file that ends in the given magic. -/
def locate (options : FetchOptions) (magic : Bytes) (file : File) : EStateM Failure Pool Location := do
  let contents ← openFile file
  if contents.length < size then throw (.fileTooShort contents.length)
  let offset := contents.length - size
  let (length, found) ← within (FileSource.range contents offset size) do
    let length ← Fetch.int32 options
    let found ← Fetch.bytes options 4
    return (length, found)
  if found ≠ magic then throw (.invalidMagic magic found)
  if length.toInt < 0 ∨ (offset : Int) < length.toInt then throw (.invalidFooterLength length)
  return ⟨offset - length.toInt.toNat, length.toInt.toNat⟩

/-- The record that begins at a location. -/
def readAt (options : FetchOptions) (l : Location) (file : File) : EStateM Failure Pool Record := do
  let contents ← openFile file
  within (FileSource.range contents l.offset l.length) (Fetch.record options)

/-- The footer of a file that ends in the given magic. -/
def read (options : FetchOptions) (magic : Bytes) (file : File) : EStateM Failure Pool Record := do
  readAt options (← locate options magic file) file

end CompactWire.Trailer

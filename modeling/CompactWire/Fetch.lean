import CompactWire.Failure
import CompactWire.Header
import CompactWire.Reader.Value
import CompactWire.Transport

/-!
# CompactWire.Fetch — reading one thing from a source

Each function here opens a transport over a source, reads one thing and closes the transport, also when reading fails.
What was not read goes back to the source, so that one after the other they read a contiguous stream.
-/

namespace CompactWire

/-- How to read from a source. -/
structure FetchOptions where
  /-- The most bytes to ask a source for at a time. -/
  chunkSize : PosSize := PosSize.mebibyte
  limits : Limits := {}

/-- Reading from a source whose chunks come out of a pool. -/
abbrev Fetching (σ : Type) := EStateM Failure (σ × Pool)

namespace Fetch

variable {σ : Type} [Source σ]

/-- Runs an operation on a transport of its own. -/
def withTransport {α : Type} (options : FetchOptions) (onError : Error → Failure)
    (x : EStateM Error (Transport σ) α) : Fetching σ α := fun (source, pool) =>
  match x { source, pool, chunkSize := options.chunkSize } with
  | .ok a t => .ok a (t.close.source, t.close.pool)
  | .error e t => .error (.naming onError e) (t.close.source, t.close.pool)

/-- Runs calls of a reader on a transport of its own. -/
def withReader {α : Type} (options : FetchOptions) (x : EStateM Failure (Reader (Transport σ)) α) :
    Fetching σ α := fun (source, pool) =>
  match x { input := { source, pool, chunkSize := options.chunkSize }, limits := options.limits } with
  | .ok a r => .ok a (r.input.close.source, r.input.close.pool)
  | .error e r => .error e (r.input.close.source, r.input.close.pool)

/-- Names what a call of a reader was to read. -/
def about {ι α : Type} (subject : Subject) (x : Reading ι α) : EStateM Failure (Reader ι) α := fun r =>
  match x r with
  | .ok a r => .ok a r
  | .error e r => .error (.naming (.undecodable subject) e) r

/-- The bytes of the next span. -/
def bytes (options : FetchOptions) (length : Nat) : Fetching σ Bytes :=
  withTransport options .codec (Input.withSpan length)

/-- The next four bytes as a signed number, least significant byte first. -/
def int32 (options : FetchOptions) : Fetching σ Int32 := do
  return Int32.ofNat (← bytes options 4).ofLittleEndian

/-- The next record. -/
def record (options : FetchOptions) : Fetching σ Record :=
  withReader options (about .record Reader.record)

/-- The next message: its header and the record behind it. -/
def message (options : FetchOptions) : Fetching σ (MessageHeader × Record) :=
  withReader options do
    let header ← about .messageHeader Reader.messageBegin
    let record ← about .messageBody Reader.record
    return (header, record)

end Fetch

end CompactWire

import CompactWire.Input
import CompactWire.Source

/-!
# CompactWire.Transport — an input over a source, without copying where possible

A transport holds at most one chunk of its source.  A span that lies in the held chunk is borrowed from it.  A span that
goes on past it is assembled: its bytes are copied into a buffer of the pool, chunk by chunk, and every chunk that is
used up is handed back before the next one is read.  A chunk without bytes ends the stream.  The chunks that are read to
assemble a span are counted, and a count that can go no further breaks off the call.

`close` hands back what is held, so that the next transport over the source goes on where this one stopped.
-/

namespace CompactWire

/-- A transport over a source of type `σ`. -/
structure Transport (σ : Type) where
  source : σ
  pool : Pool
  /-- The most bytes to ask for at a time. -/
  chunkSize : PosSize
  /-- The chunk that is being read. -/
  held : Option Buffer := none

/-- A span of a transport. -/
inductive TransportSpan
  /-- Bytes of the held chunk. -/
  | borrowed (bytes : Bytes)
  /-- A copy of bytes that more than one chunk held. -/
  | assembled (buffer : Buffer)

namespace Transport

variable {σ : Type}

/-- The number of bytes left in the held chunk. -/
def buffered (t : Transport σ) : Nat := t.held.elim 0 Buffer.length

/-- How many chunks have to be read before a byte is at hand. -/
def due (t : Transport σ) : Nat := if t.buffered = 0 then 1 else 0

/-- Gives a buffer back to the pool. -/
def giveBack (b : Buffer) (t : Transport σ) : Transport σ := { t with pool := t.pool.release b }

variable [Source σ]

/-- Hands a chunk back to the source and its buffer to the pool. -/
def handBack (chunk : Buffer) (t : Transport σ) : Transport σ :=
  giveBack chunk { t with source := Source.release chunk t.source }

/-- Ends a transport: the held chunk is handed back. -/
def close (t : Transport σ) : Transport σ :=
  match t.held with
  | none => t
  | some chunk => handBack chunk { t with held := none }

/-- Hands back the held chunk and reads the next one. -/
def refill : EStateM Error (Transport σ) Unit := fun t =>
  let t := t.close
  match Source.readChunk t.chunkSize.val (t.source, t.pool) with
  | .error fault (source, pool) => .error (.io fault) { t with source, pool }
  | .ok none (source, pool) => .error .endOfInput { t with source, pool }
  | .ok (some chunk) (source, pool) =>
    let t := { t with source, pool }
    if chunk.length = 0 then .error .endOfInput (t.handBack chunk) else .ok () { t with held := some chunk }

/-- Makes sure that a byte is buffered. -/
def fill : EStateM Error (Transport σ) Unit := fun t =>
  if t.buffered = 0 then refill t else .ok () t

/-- Makes sure that a byte is buffered, and counts the chunk that is read for it. -/
def fillCounted (chunks : Nat) : EStateM Error (Transport σ) Nat := fun t =>
  match fill t with
  | .error e t => .error e t
  | .ok _ t' =>
    let chunks := chunks + t.due
    if maxCount < chunks then .error (.aborted .overflow) t' else .ok chunks t'

/-- Copies bytes into `buffer` until it holds `length`.  Every round copies at least one byte, so as many rounds as
bytes are missing are enough. -/
def assembleInto (length : Nat) : (rounds chunks : Nat) → Buffer → EStateM Error (Transport σ) Buffer
  | 0, _, buffer => return buffer
  | rounds + 1, chunks, buffer => fun t =>
    if length ≤ buffer.length then .ok buffer t
    else match fillCounted chunks t with
      | .error e t => .error e (t.giveBack buffer)
      | .ok chunks t =>
        match t.held with
        | none => .error .endOfInput (t.giveBack buffer)
        | some chunk =>
          let wanted := min (length - buffer.length) (min chunk.length buffer.room)
          if wanted = 0 then .ok buffer t
          else
            let (copied, buffer) := buffer.put (chunk.ready.take wanted)
            match chunk.advance copied with
            | .ok chunk => assembleInto length rounds chunks buffer { t with held := some chunk }
            | .error fault => .error (.io (.assertion fault)) (t.giveBack buffer)

/-- Copies the next `length` bytes into a buffer of the pool. -/
def assemble (length : Nat) : EStateM Error (Transport σ) Buffer := fun t =>
  let (buffer, pool) := t.pool.alloc length
  match assembleInto length length 0 buffer { t with pool } with
  | .error e t => .error e t
  | .ok buffer t =>
    if buffer.length = length then .ok buffer t
    else .error (.assembledLength length buffer.length) (t.giveBack buffer)

/-- The next byte. -/
def readByte : EStateM Error (Transport σ) UInt8 := do
  fill
  let t ← get
  match t.held with
  | none => throw .endOfInput
  | some chunk =>
    match chunk.next with
    | .ok (byte, chunk) =>
      set { t with held := some chunk }
      return byte
    | .error fault => throw (.io (.assertion fault))

/-- A span of the next `length` bytes.  An empty span leaves the source alone. -/
def readSpan (length : Nat) : EStateM Error (Transport σ) TransportSpan := do
  if length = 0 then return .borrowed []
  fill
  let t ← get
  if t.buffered < length then return .assembled (← assemble length)
  match t.held with
  | none => throw .endOfInput
  | some chunk =>
    match chunk.consume length with
    | .ok (bytes, chunk) =>
      set { t with held := some chunk }
      return .borrowed bytes
    | .error fault => throw (.io (.assertion fault))

instance : Input (Transport σ) TransportSpan where
  readByte := readByte
  readSpan := readSpan
  bytes
    | .borrowed bytes => bytes
    | .assembled buffer => buffer.ready
  borrowed
    | .borrowed _ => true
    | .assembled _ => false
  release
    | .borrowed _ => id
    | .assembled buffer => giveBack buffer
  remaining t := t.buffered + Source.remaining t.source

end Transport

end CompactWire

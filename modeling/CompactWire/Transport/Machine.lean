import CompactWire.Source.Steps
import CompactWire.Transport

/-!
# CompactWire.Transport.Machine — a transport with every check written out

The same steps as those of `Transport`, over the steps of a source and on buffers by their indices, with every check.
The loop that assembles a span goes on as long as bytes are missing; it is broken off in a round that would copy
nothing, and after as many rounds as there are bytes to copy and one more.

As an input a machine ends a call that a check breaks off as if it were at its end, and remembers the breach for good.
-/

namespace CompactWire

/-- A transport over a source of type `σ`, by its steps. -/
structure Machine (σ : Type) where
  steps : SourceSteps σ
  source : σ
  account : Account
  /-- The most bytes to ask for at a time. -/
  chunkSize : PosSize
  /-- The chunk that is being read. -/
  held : Option Cells := none
  /-- The last check that did not hold. -/
  breach : Option Breach := none

/-- A span of a machine. -/
inductive MachineSpan
  /-- Bytes of the held chunk. -/
  | borrowed (bytes : Bytes)
  /-- A copy of bytes that more than one chunk held, and the bytes that it shows. -/
  | assembled (buffer : Cells) (bytes : Bytes)

/-- A step of a machine. -/
abbrev Running (σ : Type) := EStateM (Stop Error) (Machine σ)

namespace Machine

variable {σ α : Type}

/-- Lends a buffer that holds at least `capacity` bytes. -/
def alloc (capacity : Nat) : Running σ Cells := do
  let (buffer, account) ← check ((← get).account.alloc capacity)
  modify ({ · with account })
  return buffer

/-- Gives a buffer back to the pool. -/
def giveBack (buffer : Cells) : Running σ Unit := do
  let account ← check ((← get).account.giveBack buffer)
  modify ({ · with account })

/-- Ends with an error; a buffer goes back. -/
def fail (buffer : Cells) (e : Error) : Running σ α := do
  giveBack buffer
  throw (.error e)

/-- Hands a chunk back to the source and its buffer to the pool. -/
def handBack (chunk : Cells) : Running σ Unit := do
  let m ← get
  let source ← check (m.steps.release chunk m.source)
  modify ({ · with source })
  giveBack chunk

/-- Hands back the held chunk. -/
def close : Running σ Unit := do
  match (← get).held with
  | none => return ()
  | some chunk =>
    modify ({ · with held := none })
    handBack chunk

/-- Reads a chunk from the source. -/
def readChunk : Running σ (Option Cells) := fun m =>
  match m.steps.readChunk m.chunkSize.val (m.source, m.account) with
  | .ok chunk (source, account) => .ok chunk { m with source, account }
  | .error (.error fault) (source, account) => .error (.error (.io fault)) { m with source, account }
  | .error (.breach b) (source, account) => .error (.breach b) { m with source, account }

/-- Hands back the held chunk and reads the next one. -/
def refill : Running σ Unit := do
  close
  match ← readChunk with
  | none => throw (.error .endOfInput)
  | some chunk =>
    if chunk.cursor = chunk.len then
      handBack chunk
      throw (.error .endOfInput)
    else modify ({ · with held := some chunk })

/-- The number of bytes left in the held chunk. -/
def buffered : Running σ Nat := do
  match (← get).held with
  | none => return 0
  | some chunk => check chunk.length

/-- Makes sure that a byte is buffered. -/
def fill : Running σ Unit := do
  if (← buffered) = 0 then refill else return ()

/-- Makes sure that a byte is buffered, and counts the chunk that is read for it. -/
def fillCounted (chunks : Nat) : Running σ Nat := do
  let due := if (← buffered) = 0 then 1 else 0
  fill
  if maxCount < chunks + due then throw (.error (.aborted .overflow)) else return chunks + due

/-- Makes sure that a byte is buffered, and counts; if that fails, a buffer goes back. -/
def fillFor (chunks : Nat) (buffer : Cells) : Running σ Nat := fun m =>
  match fillCounted chunks m with
  | .error (.error e) m => fail buffer e m
  | o => o

/-- Copies bytes of the held chunk into `buffer`, which has `filled` of the `length` bytes that it should have. -/
def copy (length filled : Nat) (buffer chunk : Cells) : Running σ Cells := do
  let missing ← check (Checked.sub length filled)
  let wanted := min missing (min (← check chunk.length) (← check buffer.room))
  if wanted = 0 then throw (.breach .standstill)
  let bytes ← check (Checked.slice (← check chunk.chunk) 0 wanted)
  let (copied, buffer) ← check (buffer.put bytes)
  let chunk ← check (chunk.advance copied)
  modify ({ · with held := some chunk })
  return buffer

/-- Copies bytes into `buffer` until it holds `length`. -/
def assembleInto (length : Nat) : (rounds chunks : Nat) → Cells → Running σ Cells
  | 0, _, _ => throw (.breach .endless)
  | rounds + 1, chunks, buffer => do
    let filled ← check buffer.length
    if length ≤ filled then return buffer
    else
      let chunks ← fillFor chunks buffer
      match (← get).held with
      | none => fail buffer .endOfInput
      | some chunk => assembleInto length rounds chunks (← copy length filled buffer chunk)

/-- Copies the next `length` bytes into a buffer of the pool. -/
def assemble (length : Nat) : Running σ Cells := do
  let buffer ← assembleInto length (length + 1) 0 (← alloc length)
  let filled ← check buffer.length
  if filled ≠ length then fail buffer (.assembledLength length filled) else return buffer

/-- The next byte. -/
def readByte : Running σ UInt8 := do
  fill
  match (← get).held with
  | none => throw (.error .endOfInput)
  | some chunk =>
    let (byte, chunk) ← check chunk.next
    modify ({ · with held := some chunk })
    return byte

/-- A span of the next `length` bytes.  An empty span leaves the source alone. -/
def readSpan (length : Nat) : Running σ MachineSpan := do
  if length = 0 then return .borrowed []
  else
    fill
    if (← buffered) < length then
      let buffer ← assemble length
      return .assembled buffer (← check buffer.chunk)
    else
      match (← get).held with
      | none => throw (.error .endOfInput)
      | some chunk =>
        let (bytes, chunk) ← check (chunk.consume length)
        modify ({ · with held := some chunk })
        return .borrowed bytes

/-- Ends the use of a span. -/
def release : MachineSpan → Running σ Unit
  | .borrowed _ => return ()
  | .assembled buffer _ => giveBack buffer

/-- A step as an operation of an input. -/
def run (x : Running σ α) : EStateM Error (Machine σ) α := fun m =>
  match x m with
  | .ok a m => .ok a m
  | .error (.error e) m => .error e m
  | .error (.breach b) m => .error .endOfInput { m with breach := some b }

instance [Source σ] : Input (Machine σ) MachineSpan where
  readByte := run readByte
  readSpan length := run (readSpan length)
  bytes
    | .borrowed bytes | .assembled _ bytes => bytes
  borrowed
    | .borrowed _ => true
    | .assembled _ _ => false
  release span m :=
    match run (release span) m with
    | .ok _ m | .error _ m => m
  remaining m := m.held.elim 0 (fun chunk => chunk.len - chunk.cursor) + Source.remaining m.source

end Machine

end CompactWire

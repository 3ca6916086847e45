import CompactWire.Pool.Account
import CompactWire.Source.File
import CompactWire.Source.Memory
import CompactWire.Source.Script

/-!
# CompactWire.Source.Steps — sources with every check written out

`SourceSteps` is what a source does, on buffers by their indices and with every check: it reads chunks, and takes note
of those handed back.  For each kind of source the steps are its own; `SourceSteps.of` takes those of any source as they
are, without checks inside.
-/

namespace CompactWire

/-- Why a step ends early: with an error, or because a check does not hold. -/
inductive Stop (ε : Type)
  | error (e : ε)
  | breach (b : Breach)

/-- Goes on if the checks hold. -/
def check {ε σ α : Type} (x : Checked α) : EStateM (Stop ε) σ α := fun s =>
  match x with
  | .ok a => .ok a s
  | .error b => .error (.breach b) s

/-- What a source does. -/
structure SourceSteps (σ : Type) where
  /-- The next chunk of at most so many bytes, or nothing at the end of the stream. -/
  readChunk : Nat → EStateM (Stop IoFault) (σ × Account) (Option Cells)
  /-- Takes note of a chunk that is handed back. -/
  release : Cells → σ → Checked σ

namespace SourceSteps

variable {σ : Type}

/-- Lends a buffer that holds at least `capacity` bytes. -/
def alloc (capacity : Nat) : EStateM (Stop IoFault) (σ × Account) Cells := do
  let (source, account) ← get
  let (chunk, account) ← check (account.alloc capacity)
  set (source, account)
  return chunk

/-- Takes a buffer back. -/
def giveBack (chunk : Cells) : EStateM (Stop IoFault) (σ × Account) Unit := do
  let (source, account) ← get
  set (source, ← check (account.giveBack chunk))

/-- Ends with a fault; the buffer of the chunk goes back. -/
def fail (chunk : Cells) (fault : IoFault) : EStateM (Stop IoFault) (σ × Account) (Option Cells) := do
  giveBack chunk
  throw (.error fault)

/-- The steps of any source, as they are. -/
def of (σ : Type) [Source σ] : SourceSteps σ where
  readChunk max := fun (source, account) =>
    match Source.readChunk max (source, account.pool) with
    | .ok chunk (source, pool) => .ok (chunk.map Cells.of) (source, { account with pool })
    | .error fault (source, pool) => .error (.error fault) (source, { account with pool })
  release chunk source := return Source.release chunk.buffer source

end SourceSteps

/-- The steps of a byte string that is served in chunks. -/
def MemorySource.steps : SourceSteps MemorySource where
  readChunk max := do
    let s := (← get).1
    let length := min (s.data.length - s.position) (min max s.chunkSize.val)
    if length = 0 then return none
    let chunk ← SourceSteps.alloc length
    let bytes ← check (Checked.slice s.data s.position (s.position + length))
    let (copied, chunk) ← check (chunk.put bytes)
    modify fun (_, account) => ({ s with
      position := s.position + copied
      outstanding := s.outstanding + 1
      reads := s.reads + 1 }, account)
    return some chunk
  release chunk s := do
    let unread ← chunk.length
    return { s with position := s.position - unread, outstanding := s.outstanding - 1 }

/-- The steps of a range of a file. -/
def FileSource.steps : SourceSteps FileSource where
  readChunk max := do
    let s := (← get).1
    let length := min s.remaining max
    if length = 0 then return none
    let chunk ← SourceSteps.alloc length
    if 1 <<< 63 ≤ s.position then SourceSteps.fail chunk .offsetOutOfRange
    else
      let bytes := (s.contents.drop s.position).take length
      let chunk ← check (chunk.write length bytes)
      if bytes.length < length then SourceSteps.fail chunk .truncated
      else
        let chunk ← check (chunk.commit length)
        modify fun (_, account) => ({ s with position := s.position + length }, account)
        return some chunk
  release chunk s := do
    let unread ← chunk.length
    return if unread = 0 then s else { s with position := max (s.position - unread) s.start }

/-- The steps of a source that behaves as written. -/
def ScriptSource.steps : SourceSteps ScriptSource where
  readChunk _ := do
    let s := (← get).1
    match s.items with
    | [] => return none
    | item :: items =>
      modify fun (_, account) => ({ s with items }, account)
      match item with
      | .endOfStream => return none
      | .fault fault => throw (.error fault)
      | .chunk bytes =>
        let chunk ← SourceSteps.alloc bytes.length
        let (_, chunk) ← check (chunk.put bytes)
        return some chunk
  release chunk s := do
    let unread ← chunk.length
    return { s with released := s.released ++ [unread] }

end CompactWire

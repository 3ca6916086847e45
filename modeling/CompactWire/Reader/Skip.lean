import CompactWire.Reader.Value

/-!
# CompactWire.Reader.Skip — passing over values

Skipping takes the same bytes and checks the same limits as reading, and keeps nothing: what a reader does not know it
can step over and go on behind it.
-/

namespace CompactWire.Reader

variable {ι span : Type}

/-- The same call, so many times. -/
def repeated (skip : Reading ι Unit) : (count : Nat) → Reading ι Unit
  | 0 => return ()
  | count + 1 => do
    skip
    repeated skip count

variable [Input ι span]

/-- Passes over the fields of a struct up to its end, with `skip` for the value of each. -/
def skipFields (skip : WireType → Reading ι Unit) : (rounds : Nat) → Reading ι Unit
  | 0 => throw .endOfInput
  | rounds + 1 => do
    match ← fieldBegin with
    | none => return ()
    | some field =>
      skip field.type
      skipFields skip rounds

/-- Passes over a value of the given type, where `levels` more levels may be opened. -/
def skipWithin (rounds : Nat) : (levels : Nat) → WireType → Reading ι Unit
  | 0, _ => do throw (.depthExceeded (← get).limits.maxDepth)
  | levels + 1, type => do
    match type with
    | .stop => throw (.invalidFieldType .stop)
    | .bool => discard bool
    | .byte => discard byte
    | .i16 | .i32 => discard i32
    | .i64 => discard i64
    | .double => discard (onInput (Input.withSpan 8))
    | .binary => discard binaryBytes
    | .list | .set =>
      let header ← collectionBegin
      repeated (skipWithin rounds levels header.element) header.size
    | .map =>
      let header ← mapBegin
      match header.key, header.value with
      | some key, some value =>
        repeated (do skipWithin rounds levels key; skipWithin rounds levels value) header.size
      | _, _ => return ()
    | .struct =>
      structBegin
      skipFields (skipWithin rounds levels) rounds
      structEnd

/-- Passes over a value of the given type. -/
def skip (type : WireType) : Reading ι Unit := do
  let r ← get
  skipWithin r.rounds (r.limits.maxDepth + 1) type

end CompactWire.Reader

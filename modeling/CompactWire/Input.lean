import CompactWire.Error

/-!
# CompactWire.Input — where a reader takes its bytes from

An input delivers single bytes and spans of a requested length.  A span may borrow from the input or own a buffer, so
it is handed back with `Input.release` once it was looked at.  An operation that fails still returns the input it
leaves behind.

The plain input is a byte string.  A span of it is delivered in full or not at all.
-/

namespace CompactWire

/-- Inputs of type `ι` whose spans have type `span`. -/
class Input (ι : Type) (span : outParam Type) where
  /-- The next byte. -/
  readByte : EStateM Error ι UInt8
  /-- A span of the next bytes, as many as requested. -/
  readSpan : Nat → EStateM Error ι span
  /-- The bytes of a span. -/
  bytes : span → Bytes
  /-- Whether a span is a view of the input, and no copy. -/
  borrowed : span → Bool
  /-- Ends the use of a span. -/
  release : span → ι → ι
  /-- A bound on the number of bytes that are still to come. -/
  remaining : ι → Nat

namespace Input

variable {ι span : Type} [Input ι span]

/-- Uses the bytes of the next span and releases it. -/
def withSpan (length : Nat) : EStateM Error ι Bytes := do
  let s ← readSpan length
  modify (release s)
  return bytes ι s

end Input

/-- The next byte of a byte string. -/
def Bytes.readByte : EStateM Error Bytes UInt8
  | [] => .error .endOfInput []
  | b :: bs => .ok b bs

/-- The next `length` bytes of a byte string, or none of them. -/
def Bytes.readSpan (length : Nat) : EStateM Error Bytes Bytes := fun bs =>
  if bs.length < length then .error .endOfInput bs else .ok (bs.take length) (bs.drop length)

instance : Input Bytes Bytes where
  readByte := Bytes.readByte
  readSpan := Bytes.readSpan
  bytes := id
  borrowed _ := true
  release _ := id
  remaining := List.length

end CompactWire

import CompactWire.Input

/-!
# CompactWire.Input.Recorded — an input that keeps what it delivers

`Recorded ι` behaves as the input inside it and keeps the bytes that it has delivered: a byte or a span once it is
delivered, a span with its own bytes.
-/

namespace CompactWire

/-- An input and the bytes that it delivered. -/
structure Recorded (ι : Type) where
  input : ι
  delivered : Bytes := []

namespace Recorded

variable {ι span α : Type}

/-- Changes the input inside; nothing is delivered. -/
def change (f : ι → ι) (r : Recorded ι) : Recorded ι := { r with input := f r.input }

/-- Runs an operation of the input inside; if it succeeds its result tells what was delivered. -/
def deliver (bytes : α → Bytes) (x : EStateM Error ι α) : EStateM Error (Recorded ι) α := fun r =>
  match x r.input with
  | .ok a input => .ok a ⟨input, r.delivered ++ bytes a⟩
  | .error e input => .error e { r with input }

instance [Input ι span] : Input (Recorded ι) span where
  readByte := deliver (fun b => [b]) Input.readByte
  readSpan length := deliver (Input.bytes ι) (Input.readSpan length)
  bytes := Input.bytes ι
  borrowed := Input.borrowed ι
  release s := change (Input.release s)
  remaining r := Input.remaining r.input

end Recorded

end CompactWire

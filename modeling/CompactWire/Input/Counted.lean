import CompactWire.Input

/-!
# CompactWire.Input.Counted — an input that counts what it delivers

`Counted ι` behaves as the input inside it and keeps the number of bytes it has delivered.  A byte or a span counts
once it is delivered, a span with its requested length; what fails counts nothing.
-/

namespace CompactWire

/-- An input and the number of bytes that it delivered. -/
structure Counted (ι : Type) where
  input : ι
  delivered : Nat := 0

namespace Counted

variable {ι span : Type}

/-- Runs an operation of the input inside; if it succeeds it delivers `length` bytes. -/
def deliver {α : Type} (length : Nat) (x : EStateM Error ι α) : EStateM Error (Counted ι) α := fun c =>
  match x c.input with
  | .ok a input => .ok a ⟨input, c.delivered + length⟩
  | .error e input => .error e ⟨input, c.delivered⟩

instance [Input ι span] : Input (Counted ι) span where
  readByte := deliver 1 Input.readByte
  readSpan length := deliver length (Input.readSpan length)
  bytes := Input.bytes ι
  borrowed := Input.borrowed ι
  release s c := { c with input := Input.release s c.input }
  remaining c := Input.remaining c.input

end Counted

end CompactWire

import CompactWire.Input

/-!
# CompactWire.Input.Noted — an input with notes beside it

`Noted τ ι` behaves as the input inside it.  The notes are changed by `note` and by nothing else.
-/

namespace CompactWire

/-- An input, and notes on what is done with it. -/
structure Noted (τ ι : Type) where
  input : ι
  notes : τ

namespace Noted

variable {τ ι span α : Type}

/-- Runs an operation of the input inside. -/
def within (x : EStateM Error ι α) : EStateM Error (Noted τ ι) α := fun n =>
  match x n.input with
  | .ok a input => .ok a { n with input }
  | .error e input => .error e { n with input }

/-- Changes the notes. -/
def note (change : τ → τ) : EStateM Error (Noted τ ι) Unit := modify fun n => { n with notes := change n.notes }

instance [Input ι span] : Input (Noted τ ι) span where
  readByte := within Input.readByte
  readSpan length := within (Input.readSpan length)
  bytes := Input.bytes ι
  borrowed := Input.borrowed ι
  release s n := { n with input := Input.release s n.input }
  remaining n := Input.remaining n.input

end Noted

end CompactWire

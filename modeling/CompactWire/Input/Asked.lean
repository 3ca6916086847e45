import CompactWire.Input

/-!
# CompactWire.Input.Asked — an input that notes what it is asked for

`Asked ι` behaves as the input inside it, and notes every span that is asked for: its length, and how many bytes came if
it was delivered.
-/

namespace CompactWire

/-- A span that was asked for. -/
structure Request where
  length : Nat
  /-- The number of bytes that came; none if the span was not delivered. -/
  came : Option Nat
deriving DecidableEq

/-- An input and the spans that it was asked for. -/
structure Asked (ι : Type) where
  input : ι
  /-- The requests, the latest first. -/
  requests : List Request := []

namespace Asked

variable {ι span : Type}

/-- Changes the input inside; nothing is asked for. -/
def change (f : ι → ι) (a : Asked ι) : Asked ι := { a with input := f a.input }

variable [Input ι span]

/-- The next byte. -/
def readByte : EStateM Error (Asked ι) UInt8 := fun a =>
  match Input.readByte a.input with
  | .ok byte input => .ok byte { a with input }
  | .error e input => .error e { a with input }

/-- A span, which is noted whether or not it is delivered. -/
def readSpan (length : Nat) : EStateM Error (Asked ι) span := fun a =>
  match Input.readSpan length a.input with
  | .ok s input => .ok s ⟨input, ⟨length, some (Input.bytes ι s).length⟩ :: a.requests⟩
  | .error e input => .error e ⟨input, ⟨length, none⟩ :: a.requests⟩

instance : Input (Asked ι) span where
  readByte := readByte
  readSpan := readSpan
  bytes := Input.bytes ι
  borrowed := Input.borrowed ι
  release s := change (Input.release s)
  remaining a := Input.remaining a.input

end Asked

end CompactWire

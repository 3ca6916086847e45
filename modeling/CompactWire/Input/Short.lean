import CompactWire.Input

/-!
# CompactWire.Input.Short — an input whose spans come short

`Short` stands for a faulty medium: it takes every span in full and withholds its last `withheld` bytes.  A reader that
relies on the length of a span has to notice.
-/

namespace CompactWire

/-- A byte string whose spans lack their last bytes. -/
structure Short where
  rest : Bytes
  /-- How many bytes each span lacks. -/
  withheld : Nat

namespace Short

/-- Runs an operation on the byte string inside. -/
def within {α : Type} (x : EStateM Error Bytes α) : EStateM Error Short α := fun s =>
  match x s.rest with
  | .ok a rest => .ok a { s with rest }
  | .error e rest => .error e { s with rest }

instance : Input Short Bytes where
  readByte := within Bytes.readByte
  readSpan length := do
    let span ← within (Bytes.readSpan length)
    return span.take (span.length - (← get).withheld)
  bytes := id
  borrowed _ := true
  release _ := id
  remaining s := s.rest.length

end Short

end CompactWire

/-!
# CompactWire.Limits — bounds on what a reader accepts

A reader checks every declared length and size against its limits before it asks for the bytes, and every struct and
value against the nesting depth before it reads it.
-/

namespace CompactWire

/-- Bounds on what a reader accepts. -/
structure Limits where
  /-- The longest string or binary, in bytes. -/
  maxString : Nat := 16777216
  /-- The most elements of a list, set or map whose size is a number of its own. -/
  maxContainer : Nat := 16777216
  /-- The deepest nesting of structs and containers. -/
  maxDepth : Nat := 64
deriving DecidableEq

end CompactWire

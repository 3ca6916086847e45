import CompactWire.Reader.Skip

/-!
# CompactWire.Reader.Nested — reading with the depth of every call told

Readers of values descend by the levels that are left.  Here they count the depth instead, from the outermost value
inwards, and every call begins with `enter`, which is told the depth that the call was given.  So `enter` sees all calls
for values, of inputs of any form.
-/

namespace CompactWire.Reader

variable {ι span : Type} [Input ι span]

/-- A value of the given type at a depth; more than `maxDepth` deep there is none. -/
def valueAt (enter : Nat → Reading ι Unit) (rounds maxDepth depth : Nat) (type : WireType) : Reading ι Value := do
  enter depth
  if maxDepth < depth then throw (.depthExceeded (← get).limits.maxDepth)
  else match type with
    | .stop => throw (.invalidFieldType .stop)
    | .bool => return .bool (← bool)
    | .byte => return .byte (← byte)
    | .i16 => return .i16 (← i16)
    | .i32 => return .i32 (← i32)
    | .i64 => return .i64 (← i64)
    | .double => return .double (← double)
    | .binary => return .binary (← binaryBytes)
    | .list => collectionOf .list (valueAt enter rounds maxDepth (depth + 1))
    | .set => collectionOf .set (valueAt enter rounds maxDepth (depth + 1))
    | .map => mapOf (valueAt enter rounds maxDepth (depth + 1))
    | .struct => return .struct (← structOf (valueAt enter rounds maxDepth (depth + 1)) rounds)
termination_by maxDepth + 1 - depth

/-- Passes over a value of the given type at a depth. -/
def skipAt (enter : Nat → Reading ι Unit) (rounds maxDepth depth : Nat) (type : WireType) : Reading ι Unit := do
  enter depth
  if maxDepth < depth then throw (.depthExceeded (← get).limits.maxDepth)
  else match type with
    | .stop => throw (.invalidFieldType .stop)
    | .bool => discard bool
    | .byte => discard byte
    | .i16 | .i32 => discard i32
    | .i64 => discard i64
    | .double => discard (onInput (Input.withSpan 8))
    | .binary => discard binaryBytes
    | .list | .set =>
      let header ← collectionBegin
      repeated (skipAt enter rounds maxDepth (depth + 1) header.element) header.size
    | .map =>
      let header ← mapBegin
      match header.key, header.value with
      | some key, some value =>
        repeated (do
          skipAt enter rounds maxDepth (depth + 1) key
          skipAt enter rounds maxDepth (depth + 1) value) header.size
      | _, _ => return ()
    | .struct =>
      structBegin
      skipFields (skipAt enter rounds maxDepth (depth + 1)) rounds
      structEnd
termination_by maxDepth + 1 - depth

variable (enter : Nat → Reading ι Unit)

/-- A value of the given type, which lies at depth zero. -/
def valueTold (type : WireType) : Reading ι Value := do
  let r ← get
  valueAt enter r.rounds r.limits.maxDepth 0 type

/-- A record, the fields of which lie at depth one. -/
def recordTold : Reading ι Record := do
  let r ← get
  structOf (valueAt enter r.rounds r.limits.maxDepth 1) r.rounds

/-- Passes over a value of the given type, which lies at depth zero. -/
def skipTold (type : WireType) : Reading ι Unit := do
  let r ← get
  skipAt enter r.rounds r.limits.maxDepth 0 type

end CompactWire.Reader

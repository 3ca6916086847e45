import CompactWire.Reader
import CompactWire.Value

/-!
# CompactWire.Reader.Value — reading values and records whose types the wire declares

A value may lie `maxDepth` levels deep, so reading one descends by `levels`, the number of levels that are left; at
none the depth is exceeded.  Every field header takes a byte, so a struct has no more fields than bytes are left:
`rounds` bounds the loop over the fields, and the entry points set it one above what the input can still deliver.
-/

namespace CompactWire.Reader

variable {ι span : Type} {α : Type}

/-- So many readings of the same kind, in order. -/
def replicate (item : Reading ι α) : (count : Nat) → Reading ι (List α)
  | 0 => return []
  | count + 1 => do
    let a ← item
    return a :: (← replicate item count)

variable [Input ι span]

/-- The fields of a struct up to its end, with `value` for the value of each. -/
def fields (value : WireType → Reading ι Value) : (rounds : Nat) → Reading ι Record
  | 0 => throw .endOfInput
  | rounds + 1 => do
    match ← fieldBegin with
    | none => return []
    | some field =>
      let v ← value field.type
      return (field.id, v) :: (← fields value rounds)

/-- A struct, with `value` for the values of its fields. -/
def structOf (value : WireType → Reading ι Value) (rounds : Nat) : Reading ι Record := do
  structBegin
  let record ← fields value rounds
  structEnd
  return record

/-- A list or a set, with `item` for its elements. -/
def collectionOf (make : WireType → List Value → Value) (item : WireType → Reading ι Value) : Reading ι Value := do
  let header ← collectionBegin
  return make header.element (← replicate (item header.element) header.size)

/-- An entry of a map, the key before the value. -/
def entryOf (item : WireType → Reading ι Value) (key value : WireType) : Reading ι (Value × Value) := do
  let k ← item key
  let v ← item value
  return (k, v)

/-- The map behind a map header; one without types has no entries. -/
def entriesOf (item : WireType → Reading ι Value) (header : MapHeader) : Reading ι Value :=
  match header.key, header.value with
  | some key, some value => return .map key value (← replicate (entryOf item key value) header.size)
  | key, value => return .map key value []

/-- A map, with `item` for its keys and values. -/
def mapOf (item : WireType → Reading ι Value) : Reading ι Value := do entriesOf item (← mapBegin)

/-- A value of the given type, where `levels` more levels may be opened. -/
def valueWithin (rounds : Nat) : (levels : Nat) → WireType → Reading ι Value
  | 0, _ => do throw (.depthExceeded (← get).limits.maxDepth)
  | levels + 1, type => do
    match type with
    | .stop => throw (.invalidFieldType .stop)
    | .bool => return .bool (← bool)
    | .byte => return .byte (← byte)
    | .i16 => return .i16 (← i16)
    | .i32 => return .i32 (← i32)
    | .i64 => return .i64 (← i64)
    | .double => return .double (← double)
    | .binary => return .binary (← binaryBytes)
    | .list => collectionOf .list (valueWithin rounds levels)
    | .set => collectionOf .set (valueWithin rounds levels)
    | .map => mapOf (valueWithin rounds levels)
    | .struct => return .struct (← structOf (valueWithin rounds levels) rounds)

/-- A number of rounds that no struct ahead can use up. -/
def rounds (r : Reader ι) : Nat := Input.remaining r.input + 1

/-- A value of the given type. -/
def value (type : WireType) : Reading ι Value := do
  let r ← get
  valueWithin r.rounds (r.limits.maxDepth + 1) type

/-- A record: the fields of a struct, which lie one level deep. -/
def record : Reading ι Record := do
  let r ← get
  structOf (valueWithin r.rounds r.limits.maxDepth) r.rounds

end CompactWire.Reader

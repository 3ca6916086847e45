import CompactWire.Value
import CompactWire.Writer

/-!
# CompactWire.Writer.Value — writing values and records

A container is its header and its elements.  Every element is checked against the declared type before it is written,
so a mistyped one fails behind the bytes of those before it.
-/

namespace CompactWire.Writer

/-- Fails if an element has not the declared type. -/
def checkType (declared : Option WireType) (element : Value) : Writing Unit := do
  if declared ≠ some element.type then throw (.invalidData (.mistypedElement element.type declared))

mutual

/-- A value without a header. -/
def value : Value → Writing Unit
  | .bool b => bool b
  | .byte n => byte n
  | .i16 n => i16 n
  | .i32 n => i32 n
  | .i64 n => i64 n
  | .double bits => double bits
  | .binary bytes => binary bytes
  | .list element elements => do
    collectionBegin ⟨element, elements.length⟩
    items element elements
  | .set element elements => do
    collectionBegin ⟨element, elements.length⟩
    items element elements
  | .map key value pairs => do
    mapBegin ⟨key, value, pairs.length⟩
    entries key value pairs
  | .struct members => do
    structBegin
    fields members
    structEnd

/-- The elements of a list or set. -/
def items (element : WireType) : List Value → Writing Unit
  | [] => return ()
  | v :: vs => do
    checkType (some element) v
    value v
    items element vs

/-- The entries of a map, the key before the value. -/
def entries (keyType valueType : Option WireType) : List (Value × Value) → Writing Unit
  | [] => return ()
  | (k, v) :: rest => do
    checkType keyType k
    checkType valueType v
    value k
    value v
    entries keyType valueType rest

/-- The fields of a struct and their end. -/
def fields : List (Int16 × Value) → Writing Unit
  | [] => fieldStop
  | (id, v) :: rest => do
    fieldBegin ⟨id, v.type⟩
    value v
    fields rest

end

/-- A record: a struct with the given fields. -/
def record (r : Record) : Writing Unit := value (.struct r)

end CompactWire.Writer

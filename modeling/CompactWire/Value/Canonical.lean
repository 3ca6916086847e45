import CompactWire.Header
import CompactWire.Value
import CompactWire.Varint

/-!
# CompactWire.Value.Canonical — the form in which a value is written

The wire leaves a choice between several forms of the same value.  `Value.canonical` is the one that is chosen: the
fewest bytes for every number, one byte for the head of a list or set of up to 14 elements, and the step to the id of a
field wherever it is short enough.
-/

namespace CompactWire

/-- The head of a list or set: a size up to 14 shares a byte with the type, a larger one follows it. -/
def CollectionHeader.canonical (h : CollectionHeader) : Bytes :=
  if h.size ≤ 14 then [nibbles h.size h.element.code] else nibbles 15 h.element.code :: Varint.encode h.size

/-- The head of a map; that of an empty one is a single zero.  No bytes stand for entries without types. -/
def MapHeader.canonical (h : MapHeader) : Bytes :=
  if h.size = 0 then [0]
  else match h.key, h.value with
    | some key, some value => Varint.encode h.size ++ [nibbles key.code value.code]
    | _, _ => []

/-- The head of a field with the given id and code, behind a field with id `last`. -/
def fieldHead (last id : Int16) (code : Nat) : Bytes :=
  let step := id.toInt - last.toInt
  if 0 < step ∧ step ≤ 15 then [nibbles step.toNat code] else nibbles 0 code :: Varint.encodeSigned id.toInt

namespace Value

mutual

/-- The bytes of a value without a header. -/
def canonical : Value → Bytes
  | .bool b => [nibbles 0 (WireType.boolCode b)]
  | .byte n => [n.toUInt8]
  | .i16 n => Varint.encodeSigned n.toInt
  | .i32 n => Varint.encodeSigned n.toInt
  | .i64 n => Varint.encodeSigned n.toInt
  | .double bits => Bytes.littleEndian 8 bits.toNat
  | .binary bytes => Varint.encode bytes.length ++ bytes
  | .list element items => CollectionHeader.canonical ⟨element, items.length⟩ ++ canonicalItems items
  | .set element items => CollectionHeader.canonical ⟨element, items.length⟩ ++ canonicalItems items
  | .map key value entries => MapHeader.canonical ⟨key, value, entries.length⟩ ++ canonicalEntries entries
  | .struct fields => canonicalFields 0 fields

/-- The bytes of the elements of a list or set. -/
def canonicalItems : List Value → Bytes
  | [] => []
  | v :: vs => canonical v ++ canonicalItems vs

/-- The bytes of the entries of a map. -/
def canonicalEntries : List (Value × Value) → Bytes
  | [] => []
  | (k, v) :: rest => canonical k ++ canonical v ++ canonicalEntries rest

/-- The bytes of fields and their end, behind a field with id `last`.  The head of a boolean field is all of it. -/
def canonicalFields (last : Int16) : List (Int16 × Value) → Bytes
  | [] => [0]
  | (id, .bool b) :: rest => fieldHead last id (WireType.boolCode b) ++ canonicalFields id rest
  | (id, v) :: rest => fieldHead last id v.type.code ++ canonical v ++ canonicalFields id rest

end

theorem canonical_map {key val : WireType} {es : List (Value × Value)} (h : es ≠ []) :
    canonical (.map (some key) (some val) es) =
      Varint.encode es.length ++ nibbles key.code val.code :: canonicalEntries es := by
  cases es with
  | nil => exact absurd rfl h
  | cons e es =>
    show _ ++ [_] ++ _ = _
    rw [List.append_assoc]
    rfl

/-- The bytes of a field with the given id, behind a field with id `last`. -/
def canonicalMember (last id : Int16) : Value → Bytes
  | .bool b => fieldHead last id (WireType.boolCode b)
  | v => fieldHead last id v.type.code ++ canonical v

theorem canonicalMember_of_ne {last id : Int16} {v : Value} (h : v.type ≠ .bool) :
    canonicalMember last id v = fieldHead last id v.type.code ++ canonical v := by
  cases v with
  | bool b => exact absurd rfl h
  | _ => rfl

theorem canonicalFields_cons (last id : Int16) (v : Value) (fs : List (Int16 × Value)) :
    canonicalFields last ((id, v) :: fs) = canonicalMember last id v ++ canonicalFields id fs := by
  cases v <;> rfl

end Value

/-- The bytes of a record. -/
def Record.canonical (r : Record) : Bytes := Value.canonicalFields 0 r

end CompactWire

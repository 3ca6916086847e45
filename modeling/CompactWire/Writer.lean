import CompactWire.Error
import CompactWire.Header
import CompactWire.Varint

/-!
# CompactWire.Writer — a session that writes headers and single values

A writer appends to `out` and keeps the last field id of every open struct, so that a field header can be written as a
step from the one before.  The header of a boolean field waits in `pendingBool` for its boolean, which is written as
the code of the header.  While it waits no other header can be written.

Every size and length is written as a number of 32 bits; one that does not fit is refused.
-/

namespace CompactWire

/-- A writing session. -/
structure Writer where
  /-- The bytes written so far. -/
  out : Array UInt8 := #[]
  /-- The last field ids of the structs around the open one, innermost first. -/
  parents : List Int16 := []
  /-- The id of the last field of the open struct. -/
  lastId : Int16 := 0
  /-- The id of the boolean field whose header waits for its boolean. -/
  pendingBool : Option Int16 := none

/-- A call of a writer: its result or its error, and the writer it leaves. -/
abbrev Writing := EStateM Error Writer

namespace Writer

/-- The number of open structs. -/
def depth (w : Writer) : Nat := w.parents.length

/-- Appends bytes. -/
def put (bytes : Bytes) : Writing Unit := modify fun w => { w with out := w.out ++ bytes }

/-- Fails while the header of a boolean field waits. -/
def checkPending : Writing Unit := do
  match (← get).pendingBool with
  | some id => throw (.pendingBool id)
  | none => return ()

/-- Appends a size or length. -/
def putSize (size : Nat) : Writing Unit := do
  if UInt32.size ≤ size then throw (.lengthExceeded size (UInt32.size - 1))
  put (Varint.encode size)

/-- Appends a field header with the given code: in one byte where the id is 1 to 15 above the last one, else with the
id in full. -/
def putFieldHeader (id : Int16) (code : Nat) : Writing Unit := do
  let step := id.toInt - (← get).lastId.toInt
  if 0 < step ∧ step ≤ 15 then put [nibbles step.toNat code]
  else put (nibbles 0 code :: Varint.encodeSigned id.toInt)
  modify fun w => { w with lastId := id }

/-- A binary: its length and its bytes. -/
def binary (bytes : Bytes) : Writing Unit := do
  putSize bytes.length
  put bytes

/-- A string: the binary of its UTF-8 bytes. -/
def string (text : String) : Writing Unit := binary (Utf8.encode text)

/-- A message header. -/
def messageBegin (header : MessageHeader) : Writing Unit := do
  if 3 < header.kind then throw (.invalidData (.kindTooWide header.kind))
  put [MessageHeader.protocolId, UInt8.ofNat (MessageHeader.version + 32 * header.kind)]
  put (Varint.encode header.seqId.toUInt32.toNat)
  string header.name

/-- Opens a struct. -/
def structBegin : Writing Unit :=
  modify fun w => { w with parents := w.lastId :: w.parents, lastId := 0 }

/-- Closes the innermost struct and goes on with the last field id of the one around it. -/
def structEnd : Writing Unit := do
  checkPending
  let w ← get
  match w.parents with
  | [] => throw .structUnderflow
  | id :: parents => set { w with parents, lastId := id }

/-- A field header; that of a boolean field waits for the boolean. -/
def fieldBegin (field : FieldHeader) : Writing Unit := do
  checkPending
  match field.type with
  | .stop => throw (.invalidFieldType .stop)
  | .bool => modify fun w => { w with pendingBool := some field.id }
  | type => putFieldHeader field.id type.code

/-- The end of the fields of a struct. -/
def fieldStop : Writing Unit := do
  checkPending
  put [0]

/-- A map header.  An empty map is a single zero. -/
def mapBegin (header : MapHeader) : Writing Unit := do
  checkPending
  if header.size = 0 then put [0]
  else match header.key, header.value with
    | some key, some value =>
      putSize header.size
      put [nibbles key.code value.code]
    | _, _ => throw (.invalidData .untypedMap)

/-- A list or set header: a size up to 14 shares a byte with the type, a larger one follows it. -/
def collectionBegin (header : CollectionHeader) : Writing Unit := do
  checkPending
  if header.size ≤ 14 then put [nibbles header.size header.element.code]
  else
    put [nibbles 15 header.element.code]
    putSize header.size

/-- A boolean: it completes the field header that waits, or is a byte of its own. -/
def bool (b : Bool) : Writing Unit := do
  let w ← get
  match w.pendingBool with
  | some id =>
    set { w with pendingBool := none }
    putFieldHeader id (WireType.boolCode b)
  | none => put [nibbles 0 (WireType.boolCode b)]

/-- A signed byte. -/
def byte (n : Int8) : Writing Unit := put [n.toUInt8]

/-- A signed number of 16 bits. -/
def i16 (n : Int16) : Writing Unit := put (Varint.encodeSigned n.toInt)

/-- A signed number of 32 bits. -/
def i32 (n : Int32) : Writing Unit := put (Varint.encodeSigned n.toInt)

/-- A signed number of 64 bits. -/
def i64 (n : Int64) : Writing Unit := put (Varint.encodeSigned n.toInt)

/-- A double: its eight bytes, least significant first. -/
def double (bits : UInt64) : Writing Unit := put (Bytes.littleEndian 8 bits.toNat)

end Writer

end CompactWire

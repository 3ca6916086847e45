import CompactWire.Header
import CompactWire.Limits
import CompactWire.Varint

/-!
# CompactWire.Reader — a session that reads headers and single values

A reader keeps what one call leaves for the next: the last field id of every open struct (a field header gives its id
as a step from the one before) and the boolean that the header of a boolean field has brought along.  Calls may come in
any order.  A call that fails leaves the reader where it stopped.

* `messageBegin`, `fieldBegin`, `mapBegin`, `collectionBegin`: headers.
* `structBegin`, `structEnd`: open and close a struct; no byte is read.
* `bool`, `byte`, `i16`, `i32`, `i64`, `double`, `string`, `binary`: single values.

Sizes and lengths are numbers of 32 bits and are checked against the limits as soon as they are read.
-/

namespace CompactWire

/-- A reading session over an input. -/
structure Reader (ι : Type) where
  input : ι
  limits : Limits
  /-- The last field ids of the structs around the open one, innermost first. -/
  parents : List Int16 := []
  /-- The id of the last field of the open struct. -/
  lastId : Int16 := 0
  /-- The boolean that the last field header brought along. -/
  pendingBool : Option Bool := none

/-- A call of a reader: its result or its error, and the reader it leaves. -/
abbrev Reading (ι : Type) := EStateM Error (Reader ι)

namespace Reader

variable {ι span : Type}

/-- The number of open structs. -/
def depth (r : Reader ι) : Nat := r.parents.length

/-- Runs an operation of the input. -/
def onInput {α : Type} (x : EStateM Error ι α) : Reading ι α := fun r =>
  match x r.input with
  | .ok a input => .ok a { r with input }
  | .error e input => .error e { r with input }

/-- The type of a code. -/
def typeOf (code : Nat) : Reading ι WireType :=
  match WireType.ofCode? code with
  | some type => return type
  | none => throw (.unknownType code)

/-- Opens a struct. -/
def structBegin : Reading ι Unit := do
  let r ← get
  if r.limits.maxDepth ≤ r.depth then throw (.depthExceeded r.limits.maxDepth)
  set { r with parents := r.lastId :: r.parents, lastId := 0 }

/-- Closes the innermost struct and goes on with the last field id of the one around it. -/
def structEnd : Reading ι Unit := do
  let r ← get
  match r.parents with
  | [] => throw .structUnderflow
  | id :: parents => set { r with parents, lastId := id }

variable [Input ι span]

/-- The next byte. -/
def readByte : Reading ι UInt8 := onInput Input.readByte

/-- A length of a string or a binary. -/
def readLength : Reading ι Nat := do
  let length ← onInput (Varint.read .w32)
  let max := (← get).limits.maxString
  if max < length then throw (.lengthExceeded length max)
  return length

/-- A size of a container. -/
def readSize : Reading ι Nat := do
  let size ← onInput (Varint.read .w32)
  let max := (← get).limits.maxContainer
  if max < size then throw (.lengthExceeded size max)
  return size

/-- A boolean: the one that the last field header brought along, else the next byte. -/
def bool : Reading ι Bool := do
  let r ← get
  match r.pendingBool with
  | some b =>
    set { r with pendingBool := none }
    return b
  | none => return (← readByte) = 1

/-- A signed byte. -/
def byte : Reading ι Int8 := return (← readByte).toInt8

/-- A signed number of 32 bits. -/
def i32 : Reading ι Int32 := return Int32.ofInt (← onInput (Varint.readSigned .w32))

/-- A signed number of 16 bits: the low half of one of 32. -/
def i16 : Reading ι Int16 := return (← i32).toInt16

/-- A signed number of 64 bits. -/
def i64 : Reading ι Int64 := return Int64.ofInt (← onInput (Varint.readSigned .w64))

/-- The bits of a double. -/
def double : Reading ι UInt64 := do
  let bytes ← onInput (Input.withSpan 8)
  if bytes.length ≠ 8 then throw (.assembledLength 8 bytes.length)
  return UInt64.ofNat bytes.ofLittleEndian

/-- A string.  Its span is released whether or not it is text; the empty string takes none. -/
def string : Reading ι String := do
  let length ← readLength
  if length = 0 then return ""
  match Utf8.decode (← onInput (Input.withSpan length)) with
  | .ok text => return text
  | .error fault => throw (.invalidUtf8 fault)

/-- A binary, as a span that the caller releases. -/
def binary : Reading ι span := do
  let length ← readLength
  onInput (Input.readSpan length)

/-- The bytes of a binary. -/
def binaryBytes : Reading ι Bytes := do
  let length ← readLength
  onInput (Input.withSpan length)

/-- A message header. -/
def messageBegin : Reading ι MessageHeader := do
  let protocol ← readByte
  if protocol ≠ MessageHeader.protocolId then throw (.invalidProtocolId protocol)
  let b := (← readByte).toNat
  if b % 32 ≠ MessageHeader.version then throw (.invalidVersion (b % 32))
  let seqId := Int32.ofNat (← onInput (Varint.read .w32))
  let name ← string
  return { name, kind := b / 32 % 4, seqId }

/-- The id of a field: a step from the id of the field before, or in full where the step is zero. -/
def fieldId (step : Nat) : Reading ι Int16 :=
  if step = 0 then i16 else return (← get).lastId + Int16.ofNat step

/-- A field header, or nothing at the end of the fields.  The high half of its first byte is the step to its id. -/
def fieldBegin : Reading ι (Option FieldHeader) := do
  let b := (← readByte).toNat
  if b = 0 then return none
  let type ← typeOf (b % 16)
  if type = .stop then throw (.invalidFieldType .stop)
  let id ← fieldId (b / 16)
  let r ← get
  set { r with
    lastId := id
    pendingBool := if type = WireType.bool then some (b % 16 = 1) else r.pendingBool }
  return some ⟨id, type⟩

/-- A map header. -/
def mapBegin : Reading ι MapHeader := do
  let size ← readSize
  if size = 0 then return ⟨none, none, 0⟩
  let b := (← readByte).toNat
  let key ← typeOf (b / 16)
  let value ← typeOf (b % 16)
  return ⟨some key, some value, size⟩

/-- The size of a list or set: up to 14 it is packed with the type, and 15 says that it follows. -/
def collectionSize (packed : Nat) : Reading ι Nat := if packed = 15 then readSize else return packed

/-- A list or set header. -/
def collectionBegin : Reading ι CollectionHeader := do
  let b := (← readByte).toNat
  let element ← typeOf (b % 16)
  let size ← collectionSize (b / 16)
  return ⟨element, size⟩

end Reader

end CompactWire

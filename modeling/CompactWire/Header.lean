import CompactWire.WireType

/-!
# CompactWire.Header — what stands before messages, fields and elements

Headers are the part of the wire that names things: a message, a field of a struct, or the types and number of the
elements of a container.
-/

namespace CompactWire

/-- The envelope of a message. -/
structure MessageHeader where
  name : String
  /-- Call, reply and exception are 1, 2 and 3; two bits on the wire. -/
  kind : Nat
  seqId : Int32
deriving DecidableEq

namespace MessageHeader

/-- The first byte of every message. -/
def protocolId : UInt8 := 0x82

/-- The version, in the low five bits of the second byte. -/
def version : Nat := 1

end MessageHeader

/-- The name of a member of a struct. -/
structure FieldHeader where
  id : Int16
  type : WireType
deriving DecidableEq

/-- The head of a list or a set. -/
structure CollectionHeader where
  element : WireType
  size : Nat
deriving DecidableEq

/-- The head of a map.  An empty map is written without types, so none are read back. -/
structure MapHeader where
  key : Option WireType
  value : Option WireType
  size : Nat
deriving DecidableEq

end CompactWire

import CompactWire.Buffer
import CompactWire.Text.Utf8
import CompactWire.WireType

/-!
# CompactWire.Error — why reading or writing fails

`Error` lists the causes; `Error.message` is the one place that words them.  `IoFault` is what the medium under a
source can report, `DataFault` what is wrong with data that has the right shape.

An `Abort` is no report: the call is broken off where it stands, and so is whatever made it.
-/

namespace CompactWire

/-- What breaks off a call. -/
inductive Abort
  /-- A count would go past the greatest number that it can hold. -/
  | overflow
  /-- No storage of the size can be made. -/
  | capacity
deriving DecidableEq

/-- The words of what breaks off a call. -/
def Abort.message : Abort → String
  | overflow => "attempt to add with overflow"
  | capacity => "capacity overflow"

/-- The greatest number that a count can hold, of chunks as of records. -/
def maxCount : Nat := (1 <<< 31) - 1

/-- What the medium under a source reports. -/
inductive IoFault
  /-- There is no such file. -/
  | notFound
  /-- The range goes on past the end of the file. -/
  | truncated
  /-- The offset is beyond what a file can be positioned at. -/
  | offsetOutOfRange
  /-- A buffer was asked for more than it has. -/
  | assertion (fault : Buffer.Fault)
  /-- Any other report, in its own words. -/
  | other (text : String)
deriving DecidableEq

/-- The words of a report. -/
def IoFault.message : IoFault → String
  | notFound => "No such file or directory (os error 2)"
  | truncated => "failed to fill whole buffer"
  | offsetOutOfRange => "Invalid argument (os error 22)"
  | assertion fault => fault.message
  | other text => text

/-- The name under which a record of fields appears in error texts. -/
def recordName : String := "slipstream_codec::value::Struct"

/-- What is wrong with data of the right shape. -/
inductive DataFault
  /-- The message kind does not fit its two bits. -/
  | kindTooWide (kind : Nat)
  /-- A map with entries declares no type for its keys or for its values. -/
  | untypedMap
  /-- An element of type `found` stands where `declared` was declared. -/
  | mistypedElement (found : WireType) (declared : Option WireType)
  /-- So many bytes follow a complete record. -/
  | trailingBytes (count : Nat)
deriving DecidableEq

namespace DataFault

/-- What the faulty data belongs to. -/
def context : DataFault → String
  | kindTooWide _ => "message header"
  | untypedMap => "MapHeader"
  | mistypedElement _ _ => "Value"
  | trailingBytes _ => recordName

/-- The words for the fault itself. -/
def detail : DataFault → String
  | kindTooWide kind => s!"kind {kind} does not fit in 2 bits"
  | untypedMap => "non-empty map without key and value types"
  | mistypedElement found none => s!"{found.label} element in None container"
  | mistypedElement found (some declared) => s!"{found.label} element in Some({declared.label}) container"
  | trailingBytes count => s!"{count} trailing bytes"

end DataFault

/-- Why a read or a write fails. -/
inductive Error
  | endOfInput
  | io (fault : IoFault)
  | invalidProtocolId (found : UInt8)
  | invalidVersion (found : Nat)
  | unknownType (code : Nat)
  | invalidVarint
  | invalidUtf8 (fault : Utf8.Fault)
  | lengthExceeded (found max : Nat)
  | depthExceeded (max : Nat)
  /-- A span came with `actual` bytes instead of the `expected` ones. -/
  | assembledLength (expected actual : Nat)
  /-- A struct was closed where none is open. -/
  | structUnderflow
  /-- The header of boolean field `id` still waits for the boolean. -/
  | pendingBool (id : Int16)
  | invalidFieldType (type : WireType)
  | invalidData (fault : DataFault)
  /-- The call was broken off. -/
  | aborted (reason : Abort)
deriving DecidableEq

/-- The words of an error. -/
def Error.message : Error → String
  | endOfInput => "unexpected end of input"
  | io fault => s!"io error: {fault.message}"
  | invalidProtocolId found => s!"invalid protocol id: expected 0x82 but got 0x{Bytes.hex [found]}"
  | invalidVersion found => s!"invalid version: expected 1 but got {found}"
  | unknownType code => s!"unknown type code: {code}"
  | invalidVarint => "invalid varint"
  | invalidUtf8 fault => s!"invalid utf-8: {fault.message}"
  | lengthExceeded found max => s!"length exceeded: {found} > {max}"
  | depthExceeded max => s!"nesting depth exceeded: {max}"
  | assembledLength expected actual => s!"assembled buffer has {actual} bytes but {expected} were requested"
  | structUnderflow => "struct end without matching struct begin"
  | pendingBool id => s!"boolean field {id.toInt} is still waiting for its value"
  | invalidFieldType type => s!"invalid field type: {type.label}"
  | invalidData fault => s!"invalid data in {fault.context}: {fault.detail}"
  | aborted reason => reason.message

end CompactWire

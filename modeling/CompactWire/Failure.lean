import CompactWire.Error

/-!
# CompactWire.Failure — why reading from a source or a file fails

A failure is an error of a reader, a report of the medium, or a file that is not laid out as it should be.  What breaks
off a call breaks off the caller, too, so it is no error that a failure names.
-/

namespace CompactWire

/-- What could not be read. -/
inductive Subject
  | record
  | messageHeader
  | messageBody
deriving DecidableEq

/-- The name of what could not be read. -/
def Subject.name : Subject → String
  | record => recordName
  | messageHeader => "message header"
  | messageBody => "message body"

/-- Why reading from a source or a file fails. -/
inductive Failure
  /-- A single value could not be read. -/
  | codec (cause : Error)
  | io (fault : IoFault)
  | undecodable (subject : Subject) (cause : Error)
  | invalidMagic (expected found : Bytes)
  | invalidFooterLength (length : Int32)
  | fileTooShort (size : Nat)
  | rangeOutOfBounds (offset stop size : Nat)
  /-- The call was broken off. -/
  | aborted (reason : Abort)
deriving DecidableEq

/-- The failure that an error is reported as.  What breaks off a call goes through. -/
def Failure.naming (name : Error → Failure) : Error → Failure
  | .aborted reason => aborted reason
  | e => name e

/-- Bytes as a list of two digits each. -/
def Bytes.listed (bytes : Bytes) : String :=
  let digits := bytes.map fun b => Bytes.hex [b]
  s!"[{String.intercalate comma digits}]"
where
  comma := ", "

/-- The words of a failure. -/
def Failure.message : Failure → String
  | codec cause => s!"codec error: {cause.message}"
  | io fault => s!"io error: {fault.message}"
  | undecodable subject cause => s!"can not read {subject.name}: {cause.message}"
  | invalidMagic expected found =>
    s!"invalid magic: expected {expected.listed} but got {found.listed}"
  | invalidFooterLength length => s!"invalid footer length: {length.toInt}"
  | fileTooShort size => s!"file too short: {size} bytes"
  | rangeOutOfBounds offset stop size => s!"range {offset}..{stop} exceeds file size {size}"
  | aborted reason => reason.message

end CompactWire

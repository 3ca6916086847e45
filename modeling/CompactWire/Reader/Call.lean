import CompactWire.Reader.Skip

/-!
# CompactWire.Reader.Call — a reading session as a sequence of calls

`Call` names every call of a reader and `Reply` every result, so that a whole session is data: `Call.run` makes one call
and `Reader.session` a sequence of them, in which every call goes on from the reader that the one before has left,
whether it succeeded or failed.
-/

namespace CompactWire.Reader

/-- A call of a reader. -/
inductive Call
  | messageBegin
  | messageEnd
  | structBegin
  | structEnd
  | fieldBegin
  | fieldEnd
  | mapBegin
  | mapEnd
  | listBegin
  | listEnd
  | setBegin
  | setEnd
  | bool
  | byte
  | i16
  | i32
  | i64
  | double
  | string
  | binary
  | skip (type : WireType)
  | value (type : WireType)
  | record
  | limits

/-- The result of a call that succeeds. -/
inductive Reply
  | done
  | message (header : MessageHeader)
  /-- No header stands at the end of the fields. -/
  | field (header : Option FieldHeader)
  | map (header : MapHeader)
  | collection (header : CollectionHeader)
  | bool (b : Bool)
  | byte (n : Int8)
  | i16 (n : Int16)
  | i32 (n : Int32)
  | i64 (n : Int64)
  | double (bits : UInt64)
  | string (text : String)
  | binary (bytes : Bytes) (borrowed : Bool)
  | value (v : Value)
  | record (r : Record)
  | limits (limits : Limits)

variable {ι span : Type} [Input ι span]

/-- Makes a call.  The ends of messages, fields and containers are marks that the wire does not hold. -/
def Call.run : Call → Reading ι Reply
  | .messageBegin => return .message (← Reader.messageBegin)
  | .structBegin => do Reader.structBegin; return .done
  | .structEnd => do Reader.structEnd; return .done
  | .fieldBegin => return .field (← Reader.fieldBegin)
  | .mapBegin => return .map (← Reader.mapBegin)
  | .listBegin | .setBegin => return .collection (← collectionBegin)
  | .messageEnd | .fieldEnd | .mapEnd | .listEnd | .setEnd => return .done
  | .bool => return .bool (← Reader.bool)
  | .byte => return .byte (← Reader.byte)
  | .i16 => return .i16 (← Reader.i16)
  | .i32 => return .i32 (← Reader.i32)
  | .i64 => return .i64 (← Reader.i64)
  | .double => return .double (← Reader.double)
  | .string => return .string (← Reader.string)
  | .binary => do
    let s ← Reader.binary
    onInput (modify (Input.release s))
    return .binary (Input.bytes ι s) (Input.borrowed ι s)
  | .skip type => do Reader.skip type; return .done
  | .value type => return .value (← Reader.value type)
  | .record => return .record (← Reader.record)
  | .limits => return .limits (← get).limits

/-- Makes the calls one after the other and lists what each gives, with the reader it leaves. -/
def session : List Call → Reader ι → List (Except Error Reply × Reader ι)
  | [], _ => []
  | call :: calls, r =>
    match call.run r with
    | .ok reply r => (.ok reply, r) :: session calls r
    | .error e r => (.error e, r) :: session calls r

end CompactWire.Reader

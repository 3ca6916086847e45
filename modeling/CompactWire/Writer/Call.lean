import CompactWire.Writer.Value

/-!
# CompactWire.Writer.Call — a writing session as a sequence of calls

`Call` names every call of a writer, so that a whole session is data.  Every call goes on from the writer that the one
before has left, whether it succeeded or failed.
-/

namespace CompactWire.Writer

/-- A call of a writer. -/
inductive Call
  | messageBegin (header : MessageHeader)
  | messageEnd
  | structBegin
  | structEnd
  | fieldBegin (header : FieldHeader)
  | fieldEnd
  | fieldStop
  | mapBegin (header : MapHeader)
  | mapEnd
  | listBegin (header : CollectionHeader)
  | listEnd
  | setBegin (header : CollectionHeader)
  | setEnd
  | bool (b : Bool)
  | byte (n : Int8)
  | i16 (n : Int16)
  | i32 (n : Int32)
  | i64 (n : Int64)
  | double (bits : UInt64)
  | string (text : String)
  | binary (bytes : Bytes)
  | value (v : Value)
  | record (r : Record)

/-- Makes a call.  The ends of messages, fields and containers are marks that the wire does not hold. -/
def Call.run : Call → Writing Unit
  | .messageBegin header => Writer.messageBegin header
  | .structBegin => Writer.structBegin
  | .structEnd => Writer.structEnd
  | .fieldBegin header => Writer.fieldBegin header
  | .fieldStop => Writer.fieldStop
  | .mapBegin header => Writer.mapBegin header
  | .listBegin header | .setBegin header => collectionBegin header
  | .messageEnd | .fieldEnd | .mapEnd | .listEnd | .setEnd => return ()
  | .bool b => Writer.bool b
  | .byte n => Writer.byte n
  | .i16 n => Writer.i16 n
  | .i32 n => Writer.i32 n
  | .i64 n => Writer.i64 n
  | .double bits => Writer.double bits
  | .string text => Writer.string text
  | .binary bytes => Writer.binary bytes
  | .value v => Writer.value v
  | .record r => Writer.record r

/-- Makes the calls one after the other and lists what each gives, with the writer it leaves. -/
def session : List Call → Writer → List (Except Error Unit × Writer)
  | [], _ => []
  | call :: calls, w =>
    match call.run w with
    | .ok _ w => (.ok (), w) :: session calls w
    | .error e w => (.error e, w) :: session calls w

end CompactWire.Writer

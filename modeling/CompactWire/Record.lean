import CompactWire.Reader.Value
import CompactWire.Writer.Value

/-!
# CompactWire.Record — whole records as byte strings

`Record.encode` gives the bytes of a record and `Record.decode` the record of a byte string, which has to end where the
record does.
-/

namespace CompactWire.Record

/-- The bytes of a record. -/
def encode (r : Record) : Except Error Bytes :=
  match Writer.record r {} with
  | .ok _ w => .ok w.out.toList
  | .error e _ => .error e

/-- The record that a byte string holds, all of it. -/
def decode (limits : Limits) (bytes : Bytes) : Except Error Record :=
  match Reader.record { input := bytes, limits } with
  | .ok record r =>
    if r.input.isEmpty then .ok record else .error (.invalidData (.trailingBytes r.input.length))
  | .error e _ => .error e

end CompactWire.Record

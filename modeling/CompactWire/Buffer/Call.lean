import CompactWire.Buffer

/-!
# CompactWire.Buffer.Call — what the holder of a buffer does with it

`Call` names every call that changes a buffer, so that the use of a buffer is data.  A call that fails leaves the buffer
as it was, and any other one gives an `Answer`.
-/

namespace CompactWire.Buffer

/-- A call of a buffer. -/
inductive Call
  | put (bytes : Bytes)
  | write (bytes : Bytes)
  | commit (n : Nat)
  | consume (n : Nat)
  | advance (n : Nat)
  | next

/-- The buffer that a call leaves. -/
def Call.after (b : Buffer) : Call → Buffer
  | .put bytes => (b.put bytes).2
  | .write bytes => b.write bytes
  | .commit n => (b.commit n).toOption.getD b
  | .consume n => (b.consume n).toOption.elim b Prod.snd
  | .advance n => (b.advance n).toOption.getD b
  | .next => b.next.toOption.elim b Prod.snd

/-- What the holder of a buffer is told. -/
inductive Answer
  | done
  | count (n : Nat)
  | bytes (bytes : Bytes)
deriving DecidableEq

/-- What a call gives. -/
def Call.answer (b : Buffer) : Call → Except Fault Answer
  | .put bytes => .ok (.count (b.put bytes).1)
  | .write _ => .ok .done
  | .commit n => (b.commit n).map fun _ => .done
  | .consume n => (b.consume n).map fun taken => .bytes taken.1
  | .advance n => (b.advance n).map fun _ => .done
  | .next => b.next.map fun taken => .bytes [taken.1]

end CompactWire.Buffer

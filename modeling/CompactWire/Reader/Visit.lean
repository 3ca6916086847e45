import CompactWire.Reader.Call

/-!
# CompactWire.Reader.Visit — all that is done with an input

An input is read by readers, one after the other, and by whoever else holds it: single bytes and spans are taken from it
between the calls of a reader, and spans are kept for as long as one likes.  `Visit` names each of these steps, so that
whatever is done with an input is data.  Between the steps the input may be changed from outside.
-/

namespace CompactWire

/-- A step of those who use an input.  The spans that are kept are numbered, the latest first. -/
inductive Visit
  | byte
  | span (length : Nat)
  | drop (index : Nat)
  /-- A new reader takes the place of the one before. -/
  | reader (limits : Limits)
  | call (call : Reader.Call)

/-- What a step gives. -/
inductive Visit.Answer
  | done
  | byte (byte : UInt8)
  | span (bytes : Bytes) (borrowed : Bool)
  | reply (reply : Reader.Reply)

/-- A reader over an input, and the spans of the input that are kept. -/
structure Visited (ι span : Type) where
  reader : Reader ι
  /-- The spans, the latest first. -/
  spans : List span := []

namespace Visited

variable {ι span ω : Type} [Input ι span]

/-- The input in another state. -/
def withInput (v : Visited ι span) (input : ι) : Visited ι span := { v with reader := { v.reader with input } }

/-- The next step.  There is nothing to drop behind the last span. -/
def step (v : Visited ι span) : Visit → Except Error Visit.Answer × Visited ι span
  | .byte =>
    match Input.readByte v.reader.input with
    | .ok byte input => (.ok (.byte byte), v.withInput input)
    | .error e input => (.error e, v.withInput input)
  | .span length =>
    match Input.readSpan length v.reader.input with
    | .ok s input =>
      (.ok (.span (Input.bytes ι s) (Input.borrowed ι s)), { v.withInput input with spans := s :: v.spans })
    | .error e input => (.error e, v.withInput input)
  | .drop index =>
    match v.spans[index]? with
    | none => (.ok .done, v)
    | some s =>
      (.ok .done, { v.withInput (Input.release s v.reader.input) with spans := v.spans.eraseIdx index })
  | .reader limits => (.ok .done, { v with reader := { input := v.reader.input, limits } })
  | .call call =>
    match call.run v.reader with
    | .ok reply reader => (.ok (.reply reply), { v with reader })
    | .error e reader => (.error e, { v with reader })

/-- Takes the steps one after the other, where before each of them the input is changed from outside; gives the answers
and what is left. -/
def steps (change : ω → ι → ι) : List (ω × Visit) → Visited ι span → List (Except Error Visit.Answer) × Visited ι span
  | [], v => ([], v)
  | (outside, visit) :: visits, v =>
    let (answer, v) := (v.withInput (change outside v.reader.input)).step visit
    let (answers, v) := steps change visits v
    (answer :: answers, v)

end Visited

end CompactWire

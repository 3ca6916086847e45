import CompactWire.Transport

/-!
# CompactWire.Transport.Use — the history of a transport

`Use` names what is done to a transport and to the spans that it has given out, so that a history is data.  Spans may be
kept for as long as one likes, and dropped in any order.  Every use goes on from the transport that the one before has
left, whether it succeeded or failed; `results` lists what the uses give.
-/

namespace CompactWire.Transport

/-- A use of a transport.  The spans that are kept are numbered, the latest first. -/
inductive Use
  | byte
  | span (length : Nat)
  | drop (index : Nat)

/-- A transport and the spans of it that are kept. -/
structure InUse (σ : Type) where
  transport : Transport σ
  /-- The spans, the latest first. -/
  spans : List TransportSpan := []

variable {σ : Type} [Source σ]

namespace InUse

/-- The next use.  There is nothing to drop behind the last span. -/
def after (u : InUse σ) : Use → InUse σ
  | .byte =>
    match readByte u.transport with
    | .ok _ t | .error _ t => { u with transport := t }
  | .span length =>
    match readSpan length u.transport with
    | .ok span t => { transport := t, spans := span :: u.spans }
    | .error _ t => { u with transport := t }
  | .drop index =>
    match u.spans[index]? with
    | none => u
    | some span => { transport := Input.release span u.transport, spans := u.spans.eraseIdx index }

/-- What a use gives: the bytes that were read, or an error. -/
def result (u : InUse σ) : Use → Except Error Bytes
  | .byte =>
    match readByte u.transport with
    | .ok b _ => .ok [b]
    | .error e _ => .error e
  | .span length =>
    match readSpan length u.transport with
    | .ok span _ => .ok (Input.bytes (Transport σ) span)
    | .error e _ => .error e
  | .drop _ => .ok []

/-- The state after more uses. -/
def afterAll (u : InUse σ) (uses : List Use) : InUse σ := uses.foldl after u

/-- What more uses give. -/
def results : List Use → InUse σ → List (Except Error Bytes)
  | [], _ => []
  | use :: uses, u => u.result use :: results uses (u.after use)

/-- Closes the transport and drops spans one after the other. -/
def finish (u : InUse σ) (order : List TransportSpan) : Transport σ :=
  order.foldl (fun t span => Input.release span t) u.transport.close

end InUse

/-- A new transport after a history. -/
def history (s : σ) (pool : Pool) (chunkSize : PosSize) (uses : List Use) : InUse σ :=
  uses.foldl InUse.after { transport := { source := s, pool, chunkSize } }

end CompactWire.Transport

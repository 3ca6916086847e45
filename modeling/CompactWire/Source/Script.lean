import CompactWire.Source

/-!
# CompactWire.Source.Script — a source that behaves as written

A script lists what a source delivers: chunks of any length, empty ones included, ends of the stream that need not be
the last, and faults.  It pays no heed to the size that is asked for, and what is handed back to it does not come
again; it notes how many bytes of it were not taken.
-/

namespace CompactWire

/-- What a scripted source delivers at a time. -/
inductive ScriptItem
  | chunk (bytes : Bytes)
  | endOfStream
  | fault (fault : IoFault)

/-- A source that delivers its items one after the other. -/
structure ScriptSource where
  items : List ScriptItem
  /-- The untaken bytes of each chunk handed back. -/
  released : List Nat := []

namespace ScriptSource

/-- The next item. -/
def readChunk (_ : Nat) : EStateM IoFault (ScriptSource × Pool) (Option Buffer) := fun (s, pool) =>
  match s.items with
  | [] => .ok none (s, pool)
  | item :: items =>
    let s := { s with items }
    match item with
    | .endOfStream => .ok none (s, pool)
    | .fault fault => .error fault (s, pool)
    | .chunk bytes =>
      let (chunk, pool) := pool.alloc bytes.length
      .ok (some (chunk.put bytes).2) (s, pool)

/-- Notes a chunk that is handed back. -/
def release (chunk : Buffer) (s : ScriptSource) : ScriptSource :=
  { s with released := s.released ++ [chunk.length] }

/-- The number of bytes that an item delivers. -/
def itemLength : ScriptItem → Nat
  | .chunk bytes => bytes.length
  | _ => 0

/-- The number of bytes that items deliver together. -/
def itemsLength : List ScriptItem → Nat
  | [] => 0
  | item :: items => itemLength item + itemsLength items

instance : Source ScriptSource where
  readChunk := readChunk
  release := release
  remaining s := itemsLength s.items

end ScriptSource

end CompactWire

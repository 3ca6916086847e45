import CompactWire.Source.File
import CompactWire.Source.Memory
import CompactWire.Source.Script

/-!
# CompactWire.Source.Any — a source of any kind

`AnySource` is one of the three kinds of sources and behaves as the one it is.
-/

namespace CompactWire

/-- A source of any kind. -/
inductive AnySource
  | memory (s : MemorySource)
  | file (s : FileSource)
  | script (s : ScriptSource)

namespace AnySource

/-- Reads a chunk from a source of one kind. -/
def lift {σ : Type} [Source σ] (wrap : σ → AnySource) (s : σ) (max : Nat) (pool : Pool) :
    EStateM.Result IoFault (AnySource × Pool) (Option Buffer) :=
  match Source.readChunk max (s, pool) with
  | .ok chunk (s, pool) => .ok chunk (wrap s, pool)
  | .error fault (s, pool) => .error fault (wrap s, pool)

instance : Source AnySource where
  readChunk max := fun (s, pool) =>
    match s with
    | memory s => lift memory s max pool
    | file s => lift file s max pool
    | script s => lift script s max pool
  release chunk
    | memory s => memory (s.release chunk)
    | file s => file (s.release chunk)
    | script s => script (s.release chunk)
  remaining
    | memory s => Source.remaining s
    | file s => Source.remaining s
    | script s => Source.remaining s

end AnySource

end CompactWire

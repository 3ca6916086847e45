import CompactWire.Pool

/-!
# CompactWire.Pool.Handle — a pool that can be given up

A pool can be given up while buffers of it are on loan.  They stay usable, but none of them goes back to it any more,
and its counters stay as they were.
-/

namespace CompactWire.Pool

/-- A pool in use, or the last state of one that was given up. -/
inductive Handle
  | live (pool : Pool)
  | closed (last : Pool)

namespace Handle

/-- The pool, while it is in use. -/
def live? : Handle → Option Pool
  | live pool => some pool
  | closed _ => none

/-- The pool whose counters are reported. -/
def last : Handle → Pool
  | live pool => pool
  | closed last => last

/-- Gives the pool up. -/
def close (h : Handle) : Handle := closed h.last

/-- Takes a buffer back, while the pool is in use. -/
def release (b : Buffer) : Handle → Handle
  | live pool => live (pool.release b)
  | closed last => closed last

/-- Whether the storage of a buffer will go back to the pool. -/
def tracks (b : Buffer) (h : Handle) : Bool := b.sizeClass.isSome && h.live?.isSome

@[simp] theorem last_close (h : Handle) : h.close.last = h.last := rfl

@[simp] theorem release_close (b : Buffer) (h : Handle) : h.close.release b = h.close := rfl

end Handle

end CompactWire.Pool

import CompactWire.Buffer.Call
import CompactWire.Pool

/-!
# CompactWire.Pool.Use — the history of a pool

`Use` names everything that is done to a pool and to the buffers that it has lent, so that a history is data.  A history
may ask for buffers, with or without success, use those on loan and drop them in any order.
-/

namespace CompactWire.Pool

/-- A use of a pool.  The buffers on loan are numbered, the latest first. -/
inductive Use
  | alloc (capacity : Nat)
  | tryAlloc (capacity : Nat)
  | call (index : Nat) (call : Buffer.Call)
  | drop (index : Nat)

/-- A pool and what it has on loan. -/
structure InUse where
  pool : Pool
  /-- The buffers on loan, the latest first. -/
  live : List Buffer := []
  /-- The number of buffers ever lent. -/
  lent : Nat := 0

namespace InUse

/-- A loan begins. -/
def borrow (u : InUse) (b : Buffer) (p : Pool) : InUse := { pool := p, live := b :: u.live, lent := u.lent + 1 }

/-- The next use.  There is nothing to do with a buffer that is not on loan. -/
def after (u : InUse) : Use → InUse
  | .alloc capacity => u.borrow (u.pool.alloc capacity).1 (u.pool.alloc capacity).2
  | .tryAlloc capacity =>
    match Pool.tryAlloc capacity u.pool with
    | .ok b p => u.borrow b p
    | .error _ p => { u with pool := p }
  | .call index call =>
    match u.live[index]? with
    | none => u
    | some b => { u with live := u.live.set index (call.after b) }
  | .drop index =>
    match u.live[index]? with
    | none => u
    | some b => { u with pool := u.pool.release b, live := u.live.eraseIdx index }

end InUse

/-- How many buffers go back to a size class. -/
def tracked (live : List Buffer) (i : Nat) : Nat := live.countP (·.sizeClass = some i)

/-- A new pool after a history. -/
def history (c : Config) (uses : List Use) : InUse := uses.foldl InUse.after { pool := new c }

end CompactWire.Pool

import CompactWire.Buffer.Cells
import CompactWire.Pool

/-!
# CompactWire.Pool.Account — a pool whose table of classes is checked

The classes of a pool are a table, and a size class is an index into it.  Here an index that is not inside the table
breaks off the call.  Buffers are lent and taken back by their indices, and every request is noted with its size.
-/

namespace CompactWire

/-- A pool, and the sizes that were asked for. -/
structure Account where
  pool : Pool
  /-- The requests, the latest first. -/
  requests : List Nat := []

namespace Account

/-- Looks a size class up in the table. -/
def lookUp (sizeClass : Option Nat) (a : Account) : Checked Unit :=
  match sizeClass with
  | none => return ()
  | some i => if i < a.pool.classes.length then return () else throw .outOfRange

/-- Lends a buffer that holds at least `capacity` bytes. -/
def alloc (capacity : Nat) (a : Account) : Checked (Cells × Account) := do
  a.lookUp (a.pool.config.classIndex? capacity)
  let (b, pool) := a.pool.alloc capacity
  return (.of b, { pool, requests := capacity :: a.requests })

/-- Takes a buffer back. -/
def giveBack (c : Cells) (a : Account) : Checked Account := do
  a.lookUp c.sizeClass
  return { a with pool := a.pool.release (Buffer.ofStorage c.storage c.sizeClass) }

end Account

end CompactWire

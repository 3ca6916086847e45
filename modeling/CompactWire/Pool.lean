import CompactWire.Buffer
import CompactWire.Pool.Config

/-!
# CompactWire.Pool — a pool of reusable buffers

Every size class has a queue of slots.  A slot holds the storage of a buffer that came back, or nothing yet.  A loan
takes the slot at the front, and makes fresh storage if it holds none; the buffer that comes back fills the slot at the
back, with its storage as it is.  A class whose slots are all on loan is exhausted.

* `tryAlloc` lends a buffer of the smallest class that holds the request, or fails.
* `alloc` lends a buffer in any case: one of its own, of no class, if `tryAlloc` fails.
* `release` takes a buffer back.

Storage can not have more than `Region.maxSize` bytes.  Loans do not look at that: what a loan would have to make is told
by `made`, and what a loan that was broken off there leaves behind by `broken`.

The counters are those that metrics report.  They count every loan, also those of no class.  A class also keeps a number
of its own of the buffers on loan, beside the gauge that is reported.
-/

namespace CompactWire

namespace Pool

/-- The slots and counters of a size class. -/
structure SizeClass where
  size : Nat
  /-- The free slots, with the storage that each holds. -/
  slots : List (Option Region)
  /-- Buffers on loan. -/
  allocated : Nat := 0
  /-- Buffers on loan as they are reported, once there has been any. -/
  allocatedGauge : Option Nat := none
  /-- Free slots with storage, once there has been any. -/
  available : Option Nat := none
  /-- Loans made. -/
  allocations : Nat := 0
  /-- Requests that found no free slot. -/
  exhausted : Nat := 0

/-- A new class. -/
def SizeClass.new (c : Config) (index : Nat) : SizeClass :=
  let size := c.classSize index
  { size
    slots := List.replicate c.perClass (if c.prefill then some (Region.fresh size) else none)
    available := if c.prefill then some c.perClass else none }

/-- Takes storage from a class.  Fresh storage is made whatever its size. -/
def SizeClass.take (s : SizeClass) : Option Region × SizeClass :=
  match s.slots with
  | [] => (none, { s with exhausted := s.exhausted + 1 })
  | slot :: slots =>
    let s := { s with
      slots
      allocated := s.allocated + 1
      allocatedGauge := some (s.allocatedGauge.getD 0 + 1)
      allocations := s.allocations + 1 }
    match slot with
    | some storage => (some storage, { s with available := some (s.available.getD 0 - 1) })
    | none => (some (Region.fresh s.size), s)

/-- Puts storage back into a class of `perClass` slots. -/
def SizeClass.restore (perClass : Nat) (storage : Region) (s : SizeClass) : SizeClass :=
  let s := { s with allocated := s.allocated - 1, allocatedGauge := some (s.allocatedGauge.getD 0 - 1) }
  if s.slots.length < perClass then
    { s with slots := s.slots ++ [some storage], available := some (s.available.getD 0 + 1) }
  else s

/-- Why a pool lends no buffer of a class. -/
inductive Refusal
  /-- The request is above the greatest size. -/
  | oversized
  /-- All buffers of the class are on loan. -/
  | exhausted
deriving DecidableEq

/-- The words of a refusal. -/
def Refusal.message : Refusal → String
  | oversized => "requested capacity exceeds maximum buffer size"
  | exhausted => "pool exhausted for required size class"

end Pool

/-- A pool of buffers. -/
structure Pool where
  config : Pool.Config
  classes : List Pool.SizeClass
  /-- Requests above the greatest size. -/
  oversized : Nat := 0
  /-- Loans made, those of no class included. -/
  loans : Nat := 0
  /-- Loans not yet taken back. -/
  outstanding : Nat := 0

namespace Pool

/-- A new pool. -/
def new (c : Config) : Pool :=
  { config := c, classes := (List.range c.numClasses).map (SizeClass.new c) }

/-- Counts a loan. -/
def lend (p : Pool) : Pool := { p with loans := p.loans + 1, outstanding := p.outstanding + 1 }

/-- Lends a buffer of the smallest class that holds `capacity` bytes. -/
def tryAlloc (capacity : Nat) : EStateM Refusal Pool Buffer := fun p =>
  match p.config.classIndex? capacity with
  | none => .error .oversized { p with oversized := p.oversized + 1 }
  | some i =>
    match p.classes[i]?.map SizeClass.take with
    | some (some storage, s) => .ok (Buffer.ofStorage storage (some i)) (lend { p with classes := p.classes.set i s })
    | some (none, s) => .error .exhausted { p with classes := p.classes.set i s }
    | none => .error .exhausted p

/-- Lends a buffer that holds at least `capacity` bytes, as if there could be storage of any size. -/
def alloc (p : Pool) (capacity : Nat) : Buffer × Pool :=
  match tryAlloc capacity p with
  | .ok b p => (b, p)
  | .error _ p => (Buffer.ofStorage (Region.fresh (max capacity p.config.minSize)) none, p.lend)

/-- The size of the storage that a loan has to make; there is none to make if a slot has some. -/
def made (capacity : Nat) (p : Pool) : Nat :=
  match (p.config.classIndex? capacity).bind fun i => p.classes[i]? with
  | none => max capacity p.config.minSize
  | some s =>
    match s.slots with
    | [] => max capacity p.config.minSize
    | none :: _ => s.size
    | some _ :: _ => 0

/-- The pool behind a loan that was broken off because there is no storage of the size.  What is counted before stays
counted: a class has lost a slot, or a loan of no class is out. -/
def broken (capacity : Nat) (p : Pool) : Pool :=
  match tryAlloc capacity p with
  | .ok _ p' => { p' with loans := p.loans, outstanding := p.outstanding }
  | .error _ p' => p'.lend

/-- Takes a buffer back. -/
def release (p : Pool) (b : Buffer) : Pool :=
  let p := { p with outstanding := p.outstanding - 1 }
  match b.sizeClass with
  | none => p
  | some i => { p with classes := p.classes.modify i (SizeClass.restore p.config.perClass b.storage) }

/-- The pool as text. -/
def describe (p : Pool) : String :=
  let c := p.config.settings
  s!"BufferPool \x7b config: Config \x7b min_size: {c.minSize}, max_size: {c.maxSize}, " ++
    s!"max_per_class: {c.perClass}, prefill: {c.prefill} \x7d, num_classes: {p.classes.length} \x7d"

end Pool

end CompactWire

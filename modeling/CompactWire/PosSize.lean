/-!
# CompactWire.PosSize — sizes that are not zero

The sizes of chunks and of pools are at least one.
-/

namespace CompactWire

/-- A size of at least one. -/
abbrev PosSize := { n : Nat // 0 < n }

namespace PosSize

/-- The words for a size of zero. -/
def zeroMessage : String := "value must be non-zero"

/-- A number as a size, unless it is zero. -/
def ofNat? (n : Nat) : Option PosSize := if h : 0 < n then some ⟨n, h⟩ else none

/-- 1 MiB. -/
def mebibyte : PosSize := ⟨1048576, by decide⟩

end PosSize

end CompactWire

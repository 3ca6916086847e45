import CompactWire.PosSize

/-!
# CompactWire.Pool.Config — the size classes of a pool

The sizes of a pool are the powers of two from its least to its greatest size.  `Settings` are the numbers as they are
given; `Settings.check` turns them into a `Config`, which holds the exponents, or tells the first thing wrong with
them.  A request is served from the smallest class that holds it.
-/

namespace CompactWire.Pool

/-- Sizes in bytes, and the number of buffers of each class. -/
structure Settings where
  minSize : Nat := 4096
  maxSize : Nat := 1048576
  perClass : Nat := 32
  /-- Whether the storage of all buffers is made at the start. -/
  prefill : Bool := false

/-- What is wrong with settings. -/
inductive SettingsFault
  | zero
  | minNotPowerOfTwo
  | maxNotPowerOfTwo
  | maxBelowMin
deriving DecidableEq

/-- The words of a fault. -/
def SettingsFault.message : SettingsFault → String
  | zero => PosSize.zeroMessage
  | minNotPowerOfTwo => "min_size must be a power of two"
  | maxNotPowerOfTwo => "max_size must be a power of two"
  | maxBelowMin => "max_size must be >= min_size"

/-- The size classes of a pool: sizes `2 ^ minExp` to `2 ^ maxExp`, with `perClass` buffers each. -/
structure Config where
  minExp : Nat
  maxExp : Nat
  perClass : Nat
  prefill : Bool
  minExp_le_maxExp : minExp ≤ maxExp
  perClass_pos : 0 < perClass

/-- The size classes that settings describe. -/
def Settings.check (s : Settings) : Except SettingsFault Config :=
  if h : 0 < s.perClass then
    if s.minSize = 0 ∨ s.maxSize = 0 then .error .zero
    else if 1 <<< s.minSize.log2 ≠ s.minSize then .error .minNotPowerOfTwo
    else if 1 <<< s.maxSize.log2 ≠ s.maxSize then .error .maxNotPowerOfTwo
    else if h' : s.minSize.log2 ≤ s.maxSize.log2 then
      .ok ⟨s.minSize.log2, s.maxSize.log2, s.perClass, s.prefill, h', h⟩
    else .error .maxBelowMin
  else .error .zero

namespace Config

/-- Classes from 4 KiB to 1 MiB, 32 buffers each, made on demand. -/
def standard : Config := ⟨12, 20, 32, false, by decide, by decide⟩

/-- The size of the buffers of a class. -/
def classSize (c : Config) (index : Nat) : Nat := 1 <<< (c.minExp + index)

/-- The least size. -/
def minSize (c : Config) : Nat := c.classSize 0

/-- The number of classes. -/
def numClasses (c : Config) : Nat := c.maxExp - c.minExp + 1

/-- The greatest size. -/
def maxSize (c : Config) : Nat := 1 <<< c.maxExp

/-- The exponent of the least power of two that is not below `n`. -/
def ceilLog2 (n : Nat) : Nat := if n ≤ 1 then 0 else (n - 1).log2 + 1

/-- The smallest class whose buffers hold `n` bytes; there is none above the greatest size. -/
def classIndex? (c : Config) (n : Nat) : Option Nat :=
  if c.maxSize < n then none else some (ceilLog2 n - c.minExp)

/-- The settings that a configuration comes from. -/
def settings (c : Config) : Settings := ⟨c.minSize, c.maxSize, c.perClass, c.prefill⟩

end Config

end CompactWire.Pool

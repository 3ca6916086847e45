import CompactWire.Pool.Config

/-!
# CompactWire.Pool.Words — size classes by the bits of words

The same size classes as in `Pool.Config`, where a size is a word of 64 bits and its class is found by shifting words
and counting zeros in them.

Not every word has a next power of two, a quotient by every word and a place for each of its bits after a shift: an
operation that cannot be carried out overflows, and the result tells which it was.
-/

namespace CompactWire.Pool

/-- A number of 64 bits. -/
abbrev Word := BitVec 64

namespace Word

/-- An operation that cannot be carried out. -/
inductive Overflow
  /-- The next power of two is no word. -/
  | power
  /-- The divisor is zero. -/
  | quotient
  /-- The bits are moved by as many places as there are, or more. -/
  | shift
deriving DecidableEq

/-- The number of zeros behind the last bit that is set. -/
def trailingZeros (v : Word) : Nat := v.ctz.toNat

/-- The least power of two that is not below `v`: one more than the word of as many ones as `v - 1` has bits. -/
def nextPowerOfTwo (v : Word) : Except Overflow Word :=
  let ones := if v ≤ 1 then 0 else BitVec.allOnes 64 >>> (v - 1).clz.toNat
  if ones = BitVec.allOnes 64 then throw .power else return ones + 1

/-- A quotient. -/
def quotient (v d : Word) : Except Overflow Word := if d = 0 then throw .quotient else return v / d

/-- A word with its bits moved up. -/
def shift (v : Word) (places : Nat) : Except Overflow Word :=
  if places < 64 then return v <<< places else throw .shift

end Word

/-- Settings of a pool as words. -/
structure Words where
  minSize : Word
  maxSize : Word
  perClass : Word
  prefill : Bool

namespace Words

/-- The settings as numbers. -/
def settings (w : Words) : Settings := ⟨w.minSize.toNat, w.maxSize.toNat, w.perClass.toNat, w.prefill⟩

/-- The sizes are powers of two and in order, and there are buffers of each class. -/
structure Valid (w : Words) : Prop where
  minSize : w.minSize.toNat.isPowerOfTwo
  maxSize : w.maxSize.toNat.isPowerOfTwo
  le : w.minSize ≤ w.maxSize
  perClass : w.perClass ≠ 0

/-- The number of classes. -/
def numClasses (w : Words) : Except Word.Overflow Nat := do
  if w.maxSize < w.minSize then return 0
  return (← w.maxSize.quotient w.minSize).trailingZeros + 1

/-- The size of the buffers of a class. -/
def classSize (w : Words) (index : Nat) : Except Word.Overflow Word := w.minSize.shift index

/-- The smallest class whose buffers hold `n` bytes; there is none above the greatest size. -/
def classIndex? (w : Words) (n : Word) : Except Word.Overflow (Option Nat) := do
  if w.maxSize < n then return none
  if n ≤ w.minSize then return some 0
  let power ← n.nextPowerOfTwo
  let index := (← power.quotient w.minSize).trailingZeros
  if index < (← w.numClasses) then return some index else return none

end Words

end CompactWire.Pool

import CompactWire.Varint

/-!
# CompactWire.Varint.Word — numbers of variable length by the bits of a word

The same forms as in `Varint`, made and taken apart by shifting and masking a word of `bits` bits.

* `write` gives out the low seven bits of a word as long as there are more, each time with the top bit of the byte set.
* `read` puts seven bits after the other into a word, at a shift that goes up by seven.  A shift that is not below
  `bits` has no place in the word, and neither has the number of bits that are left then: the result is `none`.
* `zigzag` and `unzigzag` fold words with a sign onto words without one, and back.
-/

namespace CompactWire.Varint.Word

variable {bits : Nat}

/-- The low byte of a word. -/
def lowByte (v : BitVec bits) : UInt8 := UInt8.ofBitVec (v.setWidth 8)

/-- The bytes of a word. -/
def write (v : BitVec bits) : Bytes :=
  if v.toNat < 128 then [lowByte v]
  else (lowByte v ||| 0x80) :: write (v >>> 7)
termination_by v.toNat
decreasing_by
  rw [BitVec.toNat_ushiftRight, Nat.shiftRight_eq_div_pow]
  omega

/-- The number of bits up to the highest that is set. -/
def bitLength (b : UInt8) : Nat := 8 - b.toBitVec.clz.toNat

variable {ι span : Type} [Input ι span]

/-- Reads the bits from `shift` on, where `result` has those below. -/
def readAt (bits shift : Nat) (result : BitVec bits) : EStateM Error ι (Option (BitVec bits)) := do
  let byte ← Input.readByte
  if bits ≤ shift then return none
  else
    let left := bits - shift
    -- the last byte: bits that have no place, or the top bit that says that another byte follows
    if left ≤ 7 ∧ left < bitLength byte then throw .invalidVarint
    else
      let result := result ||| (byte &&& 0x7F).toBitVec.setWidth bits <<< shift
      if byte &&& 0x80 = 0 then return some result
      else readAt bits (shift + 7) result
termination_by bits - shift

/-- Reads a word. -/
def read (bits : Nat) : EStateM Error ι (Option (BitVec bits)) := readAt bits 0 0

/-- The word without a sign that stands for one with a sign. -/
def zigzag (n : BitVec bits) : BitVec bits := n <<< 1 ^^^ n.sshiftRight (bits - 1)

/-- The word with a sign that one without stands for. -/
def unzigzag (v : BitVec bits) : BitVec bits := v >>> 1 ^^^ -(v &&& 1)

end CompactWire.Varint.Word

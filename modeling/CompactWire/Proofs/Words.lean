import Mathlib.Data.Nat.Bitwise
import CompactWire.Proofs.Varint
import CompactWire.Varint.Word

/-!
# CompactWire.Proofs.Words — words and numbers have the same forms

What is shifted and masked in a word is divided and taken apart in a number: `write_eq`, `read_eq`, `toNat_zigzag` and
`toInt_unzigzag` say of each operation on words that it is the one on the numbers that the words stand for.

`read_eq` holds of every input, and it says that there is always a word: while a word is read, each shift is below the
number of its bits.  The induction is on the groups that may still come.
-/

namespace CompactWire.Varint.Word

variable {bits : Nat}

/-! ### Bytes -/

/-- The low seven bits of a byte. -/
theorem toNat_and_low (b : UInt8) : (b &&& 0x7F).toNat = b.toNat % 128 := by
  rw [UInt8.toNat_and]
  exact Nat.and_two_pow_sub_one_eq_mod b.toNat 7

/-- The top bit of a byte is not set. -/
theorem and_top_eq_zero {b : UInt8} : b &&& 0x80 = 0 ↔ b.toNat < 128 := by
  have hlt := b.toNat_lt
  have hbit : (b &&& 0x80).toNat = b.toNat / 128 % 2 * 128 := by
    rw [UInt8.toNat_and]
    exact (Nat.and_two_pow b.toNat 7).trans (congrArg (· * 128) (Nat.toNat_testBit b.toNat 7))
  rw [← UInt8.toNat_inj, hbit]
  show b.toNat / 128 % 2 * 128 = 0 ↔ _
  omega

/-- Setting the top bit of a byte. -/
theorem toNat_or_top (b : UInt8) : (b ||| 0x80).toNat = b.toNat % 128 + 128 := by
  have hlt := (b ||| 0x80).toNat_lt
  have hmod : (b ||| 0x80).toNat % 2 ^ 7 = b.toNat % 2 ^ 7 := by
    rw [UInt8.toNat_or, Nat.or_mod_two_pow]
    exact Nat.or_zero _
  have hle : 128 ≤ (b ||| 0x80).toNat := by
    rw [UInt8.toNat_or]
    exact Nat.right_le_or
  omega

/-- A byte needs more than `n` bits. -/
theorem lt_bitLength {n : Nat} {b : UInt8} : n < bitLength b ↔ 2 ^ n ≤ b.toNat := by
  have hlt : b.toNat < 2 ^ bitLength b := BitVec.toNat_lt_two_pow_sub_clz (x := b.toBitVec)
  constructor
  · intro h
    have hne : b.toBitVec ≠ 0#8 := by
      intro h0
      rw [bitLength, h0] at h
      exact absurd h (Nat.not_lt_zero n)
    have hle := BitVec.two_pow_sub_clz_le_toNat_of_ne_zero (by decide) hne
    exact Nat.le_trans (Nat.pow_le_pow_right (by decide) (by unfold bitLength at h; omega)) hle
  · intro h
    exact (Nat.pow_lt_pow_iff_right (by decide)).1 (Nat.lt_of_le_of_lt h hlt)

theorem toNat_lowByte (v : BitVec bits) : (lowByte v).toNat = v.toNat % 256 := by
  rw [lowByte, UInt8.toNat_ofBitVec, BitVec.toNat_setWidth]

/-! ### Writing -/

/-- A word is written as its number is. -/
theorem write_eq (v : BitVec bits) : write v = encode v.toNat := by
  fun_induction write v with
  | case1 v h =>
    have hbyte : lowByte v = UInt8.ofNat v.toNat := UInt8.toNat_inj.1 (by rw [toNat_lowByte, UInt8.toNat_ofNat'])
    rw [encode, if_pos h, hbyte]
  | case2 v h ih =>
    have hbyte : lowByte v ||| 0x80 = UInt8.ofNat (v.toNat % 128 + 128) := by
      apply UInt8.toNat_inj.1
      rw [toNat_or_top, toNat_lowByte, UInt8.toNat_ofNat']
      omega
    have hshift : (v >>> 7).toNat = v.toNat / 128 := by
      rw [BitVec.toNat_ushiftRight]
      exact Nat.shiftRight_eq_div_pow v.toNat 7
    rw [encode, if_neg h, hbyte, ih, hshift]

/-! ### Reading -/

/-- The next seven bits are put in front of those that are there. -/
theorem or_shiftLeft {shift r : Nat} (hr : r < 2 ^ shift) (b : UInt8) :
    BitVec.ofNat bits r ||| (b &&& 0x7F).toBitVec.setWidth bits <<< shift =
      BitVec.ofNat bits (r + 2 ^ shift * (b.toNat % 128)) := by
  apply BitVec.eq_of_toNat_eq
  have hlow : (b &&& 0x7F).toBitVec.toNat = b.toNat % 128 := toNat_and_low b
  rw [BitVec.toNat_or, BitVec.toNat_shiftLeft, BitVec.toNat_setWidth, hlow, BitVec.toNat_ofNat, BitVec.toNat_ofNat,
    Nat.shiftLeft_eq, Nat.mod_mul_mod, ← Nat.or_mod_two_pow, Nat.add_comm, Nat.two_pow_add_eq_or_of_lt hr, Nat.or_comm,
    Nat.mul_comm]

variable {ι span : Type} [Input ι span]

theorem readAt_eq {top : Nat} (hpos : 0 < top) (ht : top ≤ 7) : ∀ {groups shift r : Nat},
    bits = shift + (7 * groups + top) → r < 2 ^ shift →
    (readAt bits shift (BitVec.ofNat bits r) : EStateM Error ι _) =
      (do return some (BitVec.ofNat bits (r + 2 ^ shift * (← readGroups top groups))))
  | 0, shift, r, hbits, hr => by
    rw [readAt, readGroups]
    simp only [bind_assoc]
    refine bind_congr fun byte => ?_
    have hleft : bits - shift = top := by omega
    have hwide : 2 ^ top ≤ 128 := Nat.pow_le_pow_right (n := 2) (by decide) ht
    rw [if_neg (by omega), hleft, Nat.one_shiftLeft]
    by_cases hlt : byte.toNat < 2 ^ top
    · rw [if_neg (fun h => Nat.not_lt.2 (lt_bitLength.1 h.2) hlt), if_pos (and_top_eq_zero.2 (by omega)), if_pos hlt,
        or_shiftLeft hr, Nat.mod_eq_of_lt (by omega)]
      rfl
    · rw [if_pos ⟨ht, lt_bitLength.2 (Nat.not_lt.1 hlt)⟩, if_neg hlt]
      rfl
  | groups + 1, shift, r, hbits, hr => by
    rw [readAt, readGroups]
    simp only [bind_assoc]
    refine bind_congr fun byte => ?_
    rw [if_neg (by omega), if_neg (by omega), or_shiftLeft hr]
    have hbyte := byte.toNat_lt
    by_cases hlt : byte.toNat < 128
    · rw [if_pos (and_top_eq_zero.2 hlt), if_pos hlt, Nat.mod_eq_of_lt hlt]
      rfl
    · rw [if_neg (fun h => hlt (and_top_eq_zero.1 h)), if_neg hlt]
      have hr' : r + 2 ^ shift * (byte.toNat % 128) < 2 ^ (shift + 7) := by
        have hgroup : 2 ^ shift * (byte.toNat % 128) ≤ 2 ^ shift * 127 := Nat.mul_le_mul_left _ (by omega)
        rw [Nat.pow_add]
        omega
      have hbits' : bits = shift + 7 + (7 * groups + top) := by omega
      rw [readAt_eq hpos ht hbits' hr', bind_assoc]
      refine bind_congr fun n => ?_
      have hsum : r + 2 ^ shift * (byte.toNat % 128) + 2 ^ (shift + 7) * n =
          r + 2 ^ shift * (byte.toNat - 128 + 128 * n) := by
        have hmod : byte.toNat % 128 = byte.toNat - 128 := by omega
        rw [hmod, Nat.pow_add, Nat.mul_add, Nat.mul_assoc, Nat.add_assoc]
      rw [hsum]
      rfl

/-- **A word is read as its number is**, from any input, and no shift is out of its bits on the way. -/
theorem read_eq {w : Width} (hpos : 0 < w.top) (ht : w.top ≤ 7) :
    (read w.bits : EStateM Error ι _) = (do return some (BitVec.ofNat w.bits (← Varint.read w))) := by
  have hbits : w.bits = 0 + (7 * w.groups + w.top) := (Nat.zero_add _).symm
  have h := readAt_eq (ι := ι) hpos ht hbits (show 0 < 2 ^ 0 from Nat.one_pos)
  simp only [Nat.pow_zero, Nat.one_mul, Nat.zero_add] at h
  exact h

/-! ### Signs -/

/-- Shifted by all places but one, a word consists of its sign. -/
theorem sshiftRight_eq_of_msb {n : BitVec bits} :
    n.sshiftRight (bits - 1) = if n.msb then BitVec.allOnes bits else BitVec.ofNat bits 0 := by
  have hlt := n.isLt
  have hpow : 2 ^ bits ≤ 2 * 2 ^ (bits - 1) := by
    rw [← Nat.pow_succ']
    exact Nat.pow_le_pow_right (by decide) (by omega)
  cases hmsb : n.msb with
  | false =>
    have hsmall := BitVec.msb_eq_false_iff_two_mul_lt.1 hmsb
    rw [BitVec.sshiftRight_eq_of_msb_false hmsb]
    apply BitVec.eq_of_toNat_eq
    rw [BitVec.toNat_ushiftRight, Nat.shiftRight_eq_div_pow]
    exact Nat.div_eq_of_lt (by omega)
  | true =>
    have hlarge := BitVec.msb_eq_true_iff_two_mul_ge.1 hmsb
    have hzero : ~~~n >>> (bits - 1) = BitVec.ofNat bits 0 := by
      apply BitVec.eq_of_toNat_eq
      rw [BitVec.toNat_ushiftRight, BitVec.toNat_not, Nat.shiftRight_eq_div_pow]
      exact Nat.div_eq_of_lt (by omega)
    rw [BitVec.sshiftRight_eq_of_msb_true hmsb, hzero, BitVec.not_zero]
    rfl

/-- Folding a word is folding its number. -/
theorem toNat_zigzag (n : BitVec bits) : (zigzag n).toNat = Varint.zigzag n.toInt := by
  have hlt := n.isLt
  have hshift : (n <<< 1).toNat = 2 * n.toNat % 2 ^ bits := by
    rw [BitVec.toNat_shiftLeft, Nat.shiftLeft_eq, Nat.pow_one, Nat.mul_comm]
  unfold zigzag
  rw [sshiftRight_eq_of_msb, BitVec.toInt_eq_msb_cond]
  cases hmsb : n.msb with
  | false =>
    have hsmall := BitVec.msb_eq_false_iff_two_mul_lt.1 hmsb
    simp only [Bool.false_eq_true, if_false, BitVec.xor_zero]
    rw [hshift, Nat.mod_eq_of_lt hsmall]
    rfl
  | true =>
    have hlarge := BitVec.msb_eq_true_iff_two_mul_ge.1 hmsb
    have hint : (n.toNat : Int) - (2 ^ bits : Nat) = Int.negSucc (2 ^ bits - n.toNat - 1) := by omega
    simp only [if_true, BitVec.xor_allOnes]
    have hmod : 2 * n.toNat % 2 ^ bits = 2 * n.toNat - 2 ^ bits := by
      rw [Nat.mod_eq_sub_mod hlarge, Nat.mod_eq_of_lt (by omega)]
    rw [BitVec.toNat_not, hshift, hmod, hint, Varint.zigzag]
    omega

/-- Unfolding a word is unfolding its number. -/
theorem toInt_unzigzag (hbits : 0 < bits) (v : BitVec bits) : (unzigzag v).toInt = Varint.unzigzag v.toNat := by
  have hlt := v.isLt
  have hone : (BitVec.ofNat bits 1).toNat = 1 := by
    rw [BitVec.toNat_ofNat]
    exact Nat.mod_eq_of_lt (Nat.one_lt_two_pow (Nat.ne_of_gt hbits))
  have hhalf : (v >>> 1).toNat = v.toNat / 2 := by
    rw [BitVec.toNat_ushiftRight, Nat.shiftRight_eq_div_pow, Nat.pow_one]
  have hmsb : (v >>> 1).msb = false := by
    rw [BitVec.msb_eq_false_iff_two_mul_lt, hhalf]
    omega
  have hbit : (v &&& BitVec.ofNat bits 1).toNat = v.toNat % 2 := by
    rw [BitVec.toNat_and, hone]
    exact Nat.and_one_is_mod v.toNat
  unfold unzigzag Varint.unzigzag
  split
  · rename_i heven
    have hzero : v &&& BitVec.ofNat bits 1 = BitVec.ofNat bits 0 := BitVec.eq_of_toNat_eq (by rw [hbit, heven]; rfl)
    rw [show v &&& 1 = BitVec.ofNat bits 0 from hzero, BitVec.neg_zero, BitVec.xor_zero,
      BitVec.toInt_eq_toNat_of_msb hmsb, hhalf]
    rfl
  · rename_i hodd
    have hset : v &&& BitVec.ofNat bits 1 = BitVec.ofNat bits 1 := BitVec.eq_of_toNat_eq (by rw [hbit, hone]; omega)
    rw [show v &&& 1 = BitVec.ofNat bits 1 from hset, BitVec.neg_one_eq_allOnes, BitVec.xor_allOnes,
      BitVec.toInt_eq_msb_cond, BitVec.msb_not, hmsb]
    simp only [hbits, decide_true, Bool.not_false, Bool.and_self, if_true]
    rw [BitVec.toNat_not, hhalf]
    omega

end CompactWire.Varint.Word

/-!
# CompactWire.Bytes — byte strings

Byte strings are lists of bytes.

* `Bytes.littleEndian w n`: the low `w` bytes of `n`, least significant first; `Bytes.ofLittleEndian` reads them back
  (`ofLittleEndian_littleEndian`, and the other way round `littleEndian_ofLittleEndian`).
* `Bytes.hex`: two lower-case digits a byte.
-/

namespace CompactWire

/-- A byte string. -/
abbrev Bytes := List UInt8

/-- The byte with high half `high` and low half `low`, both below 16. -/
def nibbles (high low : Nat) : UInt8 := UInt8.ofNat (16 * high + low)

theorem toNat_nibbles {high low : Nat} (hh : high < 16) (hl : low < 16) :
    (nibbles high low).toNat = 16 * high + low := by
  simp [nibbles]
  omega

theorem nibbles_halves (b : UInt8) : nibbles (b.toNat / 16) (b.toNat % 16) = b := by
  simp [nibbles, Nat.div_add_mod]

namespace Bytes

/-- The number whose bytes are given least significant first. -/
def ofLittleEndian : Bytes → Nat
  | [] => 0
  | b :: bs => b.toNat + 256 * ofLittleEndian bs

/-- The low `width` bytes of a number, least significant first. -/
def littleEndian : (width : Nat) → Nat → Bytes
  | 0, _ => []
  | width + 1, n => UInt8.ofNat n :: littleEndian width (n / 256)

@[simp] theorem length_littleEndian (width n : Nat) : (littleEndian width n).length = width := by
  induction width generalizing n with
  | zero => rfl
  | succ width ih => simp [littleEndian, ih]

theorem ofLittleEndian_littleEndian (width n : Nat) :
    ofLittleEndian (littleEndian width n) = n % 1 <<< (8 * width) := by
  induction width generalizing n with
  | zero => simp [littleEndian, ofLittleEndian, Nat.mod_one]
  | succ width ih =>
    have h : n % 1 <<< (8 * (width + 1)) = n % 256 + 256 * (n / 256 % 1 <<< (8 * width)) := by
      rw [Nat.one_shiftLeft, Nat.one_shiftLeft, Nat.mul_add, Nat.add_comm, Nat.pow_add, Nat.mod_mul]
    simp [littleEndian, ofLittleEndian, ih, h]

theorem littleEndian_ofLittleEndian (bs : Bytes) : littleEndian bs.length (ofLittleEndian bs) = bs := by
  induction bs with
  | nil => rfl
  | cons b bs ih =>
    have hb := b.toNat_lt
    have hd : (b.toNat + 256 * ofLittleEndian bs) / 256 = ofLittleEndian bs := by omega
    simp [littleEndian, ofLittleEndian, hd, ih]

theorem ofLittleEndian_lt (bs : Bytes) : ofLittleEndian bs < 1 <<< (8 * bs.length) := by
  induction bs with
  | nil => simp [ofLittleEndian]
  | cons b bs ih =>
    have hb := b.toNat_lt
    rw [Nat.one_shiftLeft] at ih ⊢
    rw [ofLittleEndian, List.length_cons, Nat.mul_add, Nat.add_comm, Nat.pow_add]
    omega

/-- The lower-case hexadecimal digit of a number below 16. -/
def hexDigit (n : Nat) : Char :=
  if n < 10 then Char.ofNat (48 + n) else Char.ofNat (87 + n)

/-- The digits of a byte string, two a byte, high half first. -/
def hexDigits (bs : Bytes) : List Char :=
  bs.flatMap fun b => [hexDigit (b.toNat / 16), hexDigit (b.toNat % 16)]

/-- Lower-case hexadecimal text of a byte string. -/
def hex (bs : Bytes) : String := String.ofList bs.hexDigits

end Bytes

end CompactWire

import CompactWire.Varint

/-!
# CompactWire.Varint.Form — the byte strings that stand for a number

A number has many forms: its groups of seven bits, least significant first, with as many zero groups behind them as one
likes.  `Form n bs` lists them all, and `Width.Admits` those among them that a reader of a width takes, by their length
and by the number alone.  `encode` writes a form (`form_encode`).
-/

namespace CompactWire.Varint

/-- `bs` is a form of `n`. -/
inductive Form : Nat → Bytes → Prop
  /-- The last byte is below 128. -/
  | last {b : UInt8} (h : b.toNat < 128) : Form b.toNat [b]
  /-- Any other byte has its top bit set, and the groups of the number go on behind it. -/
  | more {b : UInt8} {n : Nat} {bs : Bytes} (h : 128 ≤ b.toNat) (rest : Form n bs) :
    Form (b.toNat - 128 + 128 * n) (b :: bs)

/-- `bs` is a form of `n` that a reader of width `w` takes: it is not too long, and the number has not too many bits. -/
def Width.Admits (w : Width) (n : Nat) (bs : Bytes) : Prop :=
  Form n bs ∧ bs.length ≤ w.groups + 1 ∧ n < 1 <<< w.bits

theorem Form.length_pos {n : Nat} {bs : Bytes} (h : Form n bs) : 0 < bs.length := by
  cases h with
  | last => exact Nat.zero_lt_one
  | more => exact Nat.succ_pos _

theorem form_encode (n : Nat) : Form n (encode n) := by
  fun_induction encode n with
  | case1 n h =>
    have hb : (UInt8.ofNat n).toNat = n := by simp; omega
    simpa only [hb] using Form.last (b := UInt8.ofNat n) (by omega)
  | case2 n h ih =>
    have hb : (UInt8.ofNat (n % 128 + 128)).toNat = n % 128 + 128 := by simp; omega
    have hn : n % 128 + 128 - 128 + 128 * (n / 128) = n := by omega
    simpa only [hb, hn] using Form.more (b := UInt8.ofNat (n % 128 + 128)) (by omega) ih

end CompactWire.Varint

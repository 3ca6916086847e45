import CompactWire.Proofs.Outcome
import CompactWire.Varint.Form

/-!
# CompactWire.Proofs.Varint — numbers of variable length are read from their forms

* `read_eq_ok`: on a byte string a reader of a width takes exactly the forms that the width admits, and whatever stands
  behind the form is left.
* `admits_encode`: what is written for a number of that width is such a form.
-/

namespace CompactWire

/-- A signed number comes back from its unsigned form. -/
theorem ofNat_toUInt32 (n : Int32) : Int32.ofNat n.toUInt32.toNat = n := by
  rw [← UInt32.toInt32_ofNat', UInt32.ofNat_toNat, Int32.toInt32_toUInt32]

/-- Reading a byte of a byte string takes it from the front. -/
theorem Bytes.readByte_eq_ok {input rest : Bytes} {b : UInt8} :
    Bytes.readByte input = .ok b rest ↔ input = b :: rest := by
  cases input with
  | nil => simp [Bytes.readByte]
  | cons c cs => simp [Bytes.readByte]

theorem Bytes.readSpan_eq_ok {length : Nat} {input bs rest : Bytes} :
    Bytes.readSpan length input = .ok bs rest ↔ input = bs ++ rest ∧ bs.length = length := by
  unfold Bytes.readSpan
  split
  · rename_i h
    constructor
    · intro hr
      cases hr
    · rintro ⟨rfl, rfl⟩
      rw [List.length_append] at h
      omega
  · rename_i h
    rw [EStateM.Result.ok.injEq]
    constructor
    · rintro ⟨rfl, rfl⟩
      exact ⟨(List.take_append_drop length input).symm, by rw [List.length_take]; omega⟩
    · rintro ⟨rfl, rfl⟩
      exact ⟨List.take_left, List.drop_left⟩

namespace Varint

open Outcome

theorem readGroups_eq_ok {top groups n : Nat} {input rest : Bytes} (ht : top ≤ 7) :
    readGroups top groups input = .ok n rest ↔
      ∃ bs, input = bs ++ rest ∧ Form n bs ∧ bs.length ≤ groups + 1 ∧ n < 1 <<< (7 * groups + top) := by
  induction groups generalizing input n with
  | zero =>
    have htop : 1 <<< top ≤ 128 := by
      rw [Nat.one_shiftLeft]
      exact Nat.pow_le_pow_right (n := 2) (by decide) ht
    unfold readGroups
    rw [bind_eq_ok]
    constructor
    · rintro ⟨b, t, hb, h⟩
      rw [show input = b :: t from Bytes.readByte_eq_ok.1 hb]
      split at h
      · rename_i hlt
        cases h
        exact ⟨[b], rfl, .last (by omega), by simp, by simpa using hlt⟩
      · cases h
    · rintro ⟨bs, rfl, hf, hl, hn⟩
      cases hf with
      | @last b _ =>
        refine ⟨b, rest, rfl, ?_⟩
        rw [if_pos (by simpa using hn)]
        rfl
      | more _ hr => cases hr <;> simp at hl
  | succ groups ih =>
    have hpow : 1 <<< (7 * (groups + 1) + top) = 128 * 1 <<< (7 * groups + top) := by
      have hbits : 7 * (groups + 1) + top = 7 + (7 * groups + top) := by omega
      rw [Nat.one_shiftLeft, Nat.one_shiftLeft, hbits, Nat.pow_add]
    have hpos : 0 < 1 <<< (7 * groups + top) := by
      rw [Nat.one_shiftLeft]
      exact Nat.two_pow_pos _
    unfold readGroups
    rw [bind_eq_ok]
    constructor
    · rintro ⟨b, t, hb, h⟩
      rw [show input = b :: t from Bytes.readByte_eq_ok.1 hb]
      split at h
      · rename_i hlt
        cases h
        exact ⟨[b], rfl, .last hlt, by simp, by omega⟩
      · rename_i hge
        obtain ⟨m, u, hm, h⟩ := bind_eq_ok.1 h
        cases h
        obtain ⟨bs, rfl, hf, hl, hlt⟩ := ih.1 hm
        exact ⟨b :: bs, rfl, .more (by omega) hf, by simpa using hl, by have := b.toNat_lt; omega⟩
    · rintro ⟨bs, rfl, hf, hl, hn⟩
      cases hf with
      | @last b hlt =>
        refine ⟨b, rest, rfl, ?_⟩
        rw [if_pos hlt]
        rfl
      | @more b m bs hge hr =>
        refine ⟨b, bs ++ rest, rfl, ?_⟩
        rw [if_neg (by omega), bind_eq_ok]
        exact ⟨m, rest, ih.2 ⟨bs, rfl, hr, by simpa using hl, by omega⟩, rfl⟩

/-- A reader of a width takes exactly the forms that the width admits. -/
theorem read_eq_ok {w : Width} {n : Nat} {input rest : Bytes} (ht : w.top ≤ 7) :
    read w input = .ok n rest ↔ ∃ bs, input = bs ++ rest ∧ w.Admits n bs :=
  readGroups_eq_ok ht

theorem length_encode_le {groups n : Nat} (h : n < 1 <<< (7 * (groups + 1))) : (encode n).length ≤ groups + 1 := by
  induction groups generalizing n with
  | zero => simp [encode, show n < 128 by simpa using h]
  | succ groups ih =>
    unfold encode
    split
    · simp
    · have hlt : n / 128 < 1 <<< (7 * (groups + 1)) := by
        rw [Nat.one_shiftLeft] at h ⊢
        rw [Nat.div_lt_iff_lt_mul (by decide)]
        rwa [Nat.mul_succ, Nat.pow_add] at h
      simpa using ih hlt

/-- What is written for a number of a width is a form that the width admits. -/
theorem admits_encode {w : Width} {n : Nat} (ht : w.top ≤ 7) (h : n < 1 <<< w.bits) : w.Admits n (encode n) := by
  have hle : w.bits ≤ 7 * (w.groups + 1) := by unfold Width.bits; omega
  have hlt : n < 1 <<< (7 * (w.groups + 1)) := by
    rw [Nat.one_shiftLeft] at h ⊢
    exact Nat.lt_of_lt_of_le h (Nat.pow_le_pow_right (by decide) hle)
  exact ⟨form_encode n, length_encode_le hlt, h⟩

end Varint

end CompactWire

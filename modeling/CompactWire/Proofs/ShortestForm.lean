import Mathlib
import CompactWire.Proofs.Words

/-!
# CompactWire.Proofs.ShortestForm — a number is written in its shortest form

A number has as many bytes as it has groups of seven bits, and one if it is zero (`length_encode`); no form of it has
fewer (`Form.length_encode_le`).  `encode_shortest` puts this together with the way back, for numbers without a sign and
with one, and for the words that stand for them.
-/

namespace CompactWire.Varint

/-- No form of a number is shorter than the one that is written. -/
theorem Form.length_encode_le {n : Nat} {bs : Bytes} (h : Form n bs) : (encode n).length ≤ bs.length := by
  induction h with
  | last hb =>
    rw [encode, if_pos hb]
    exact le_rfl
  | @more b m bs hb _ ih =>
    have hbyte := b.toNat_lt
    have hdiv : (b.toNat - 128 + 128 * m) / 128 = m := by omega
    rw [encode]
    split
    · exact Nat.succ_le_succ (Nat.zero_le _)
    · rw [hdiv]
      exact Nat.succ_le_succ ih

theorem size_eq_of_le {n : Nat} (h : 128 ≤ n) : n.size = (n / 128).size + 7 := by
  have hpos : 0 < (n / 128).size := Nat.size_pos.2 (by omega)
  apply le_antisymm
  · have hlt := Nat.lt_size_self (n / 128)
    rw [Nat.size_le, Nat.pow_add]
    omega
  · have hle : 2 ^ ((n / 128).size - 1) ≤ n / 128 := Nat.lt_size.1 (by omega)
    have hpow : 2 ^ ((n / 128).size - 1 + 7) ≤ n := by
      rw [Nat.pow_add]
      omega
    have hlt := Nat.lt_size.2 hpow
    omega

/-- A number is written in groups of seven bits. -/
theorem length_encode (n : Nat) : (encode n).length = max 1 (n.size ⌈/⌉ 7) := by
  fun_induction encode n with
  | case1 n h =>
    have hsize : n.size ≤ 7 := Nat.size_le.2 h
    rw [Nat.ceilDiv_eq_add_pred_div, List.length_singleton]
    omega
  | case2 n h ih =>
    have hsize := size_eq_of_le (Nat.not_lt.1 h)
    have hpos : 0 < (n / 128).size := Nat.size_pos.2 (by omega)
    rw [Nat.ceilDiv_eq_add_pred_div] at ih ⊢
    rw [List.length_cons, ih, hsize]
    omega

theorem read_encode {w : Width} {n : Nat} (ht : w.top ≤ 7) (h : n < 2 ^ w.bits) (x : Bytes) :
    read w (encode n ++ x) = .ok n x :=
  (read_eq_ok ht).2 ⟨encode n, rfl, admits_encode ht (by rwa [Nat.one_shiftLeft])⟩

theorem readSigned_encodeSigned {w : Width} {i : Int} (ht : w.top ≤ 7) (h : zigzag i < 2 ^ w.bits) (x : Bytes) :
    readSigned w (encodeSigned i ++ x) = .ok i x := by
  unfold readSigned encodeSigned
  rw [Outcome.bind_of_ok (read_encode ht h x), unzigzag_zigzag]
  rfl

theorem zigzag_eq_ite (i : Int) : (zigzag i : Int) = if 0 ≤ i then 2 * i else -2 * i - 1 := by
  cases i with
  | ofNat n =>
    rw [if_pos (show 0 ≤ Int.ofNat n from Int.natCast_nonneg n)]
    rfl
  | negSucc n =>
    rw [if_neg (Int.not_le.2 (Int.negSucc_lt_zero n)), zigzag]
    omega

/-- **Writing is the shortest inverse of reading**, for words `v` without a sign and words `n` with one, of 32 bits and
of 64.

A word is written as its number is.  What is written is read back, whatever follows it; it has as many bytes as it has
groups of seven bits, one at least, and nothing shorter is read as the same number.  Folding takes the numbers 0, -1,
1, -2, … to 0, 1, 2, 3, …; unfolding goes back, in both directions and without exceptions. -/
theorem encode_shortest {w : Width} (hw : w = .w32 ∨ w = .w64) :
    (∀ v : BitVec w.bits, Word.write v = encode v.toNat ∧
      (∀ x : Bytes, read w (encode v.toNat ++ x) = .ok v.toNat x) ∧
      (encode v.toNat).length = max 1 (v.toNat.size ⌈/⌉ 7) ∧
      ∀ bs : Bytes, read w bs = .ok v.toNat [] → (encode v.toNat).length ≤ bs.length) ∧
    ∀ n : BitVec w.bits, (Word.zigzag n).toNat = zigzag n.toInt ∧ (Word.unzigzag n).toInt = unzigzag n.toNat ∧
      ((Word.zigzag n).toNat : Int) = (if 0 ≤ n.toInt then 2 * n.toInt else -2 * n.toInt - 1) ∧
      Word.unzigzag (Word.zigzag n) = n ∧ Word.zigzag (Word.unzigzag n) = n ∧
      ∀ x : Bytes, readSigned w (encodeSigned n.toInt ++ x) = .ok n.toInt x := by
  have htop : w.top ≤ 7 := by rcases hw with rfl | rfl <;> decide
  have hbits : 0 < w.bits := by rcases hw with rfl | rfl <;> decide
  refine ⟨fun v => ⟨Word.write_eq v, read_encode htop v.isLt, length_encode _, fun bs h => ?_⟩, fun n =>
    ⟨Word.toNat_zigzag n, Word.toInt_unzigzag hbits n, Word.toNat_zigzag n ▸ zigzag_eq_ite n.toInt, ?_, ?_,
      fun x => ?_⟩⟩
  · obtain ⟨bs', rfl, hform, -⟩ := (read_eq_ok htop).1 h
    rw [List.append_nil]
    exact hform.length_encode_le
  · apply BitVec.eq_of_toInt_eq
    rw [Word.toInt_unzigzag hbits, Word.toNat_zigzag, unzigzag_zigzag]
  · apply BitVec.eq_of_toNat_eq
    rw [Word.toNat_zigzag, Word.toInt_unzigzag hbits, zigzag_unzigzag]
  · exact readSigned_encodeSigned htop (Word.toNat_zigzag n ▸ (Word.zigzag n).isLt) x

/-- The least number of 32 bits with a sign is folded onto the greatest without one, which takes all five bytes. -/
theorem encode_shortest_least : (Width.w32 = .w32 ∨ Width.w32 = .w64) ∧
    Word.zigzag (BitVec.intMin 32) = BitVec.allOnes 32 ∧ Word.unzigzag (BitVec.allOnes 32) = BitVec.intMin 32 ∧
    (encode 4294967295).length = 5 ∧
    readSigned .w32 (encodeSigned (-2147483648) ++ [7] : Bytes) = .ok (-2147483648) [7] := by
  obtain ⟨hunsigned, hsigned⟩ := encode_shortest (w := .w32) (Or.inl rfl)
  have hfold : Word.zigzag (BitVec.intMin 32) = BitVec.allOnes 32 := by decide
  refine ⟨Or.inl rfl, hfold, ?_, (hunsigned (BitVec.allOnes 32)).2.2.1.trans (by decide), ?_⟩
  · rw [← hfold]
    exact (hsigned (BitVec.intMin 32)).2.2.2.1
  · exact (hsigned (BitVec.intMin 32)).2.2.2.2.2 [7]

end CompactWire.Varint

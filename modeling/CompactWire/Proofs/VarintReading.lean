import Mathlib
import CompactWire.Proofs.Words

/-!
# CompactWire.Proofs.VarintReading — what reading a number gives, of any byte string

A number ends with the first byte whose top bit is not set (`LastAt`).  If there is one among the bytes that a width
allows, and it has no more bits than are left for it, then the number is the sum of its groups.  A byte at the last
place that has more bits, or a top bit, is refused.  Otherwise the bytes ran out before the number ended.  `read_exact`
says so, and that no more bytes are taken than a number of the width can have.

Each outcome is an induction over the bytes; that there are no others is `runs_out`.
-/

namespace CompactWire.Varint

open Outcome

/-- The first byte without a top bit stands at `k`. -/
def LastAt (input : Bytes) (k : Nat) : Prop :=
  k < input.length ∧ (input.getD k 0).toNat < 128 ∧ ∀ i < k, 128 ≤ (input.getD i 0).toNat

/-- The byte at `k` ends a number that has not too many bytes and not too many bits. -/
def Complete (w : Width) (input : Bytes) (k : Nat) : Prop :=
  LastAt input k ∧ k ≤ w.groups ∧ (k < w.groups ∨ (input.getD k 0).toNat < 2 ^ w.top)

/-- The byte at the last place has more bits than are left for it. -/
def Overfull (w : Width) (input : Bytes) : Prop :=
  w.groups < input.length ∧ (∀ i < w.groups, 128 ≤ (input.getD i 0).toNat) ∧
    2 ^ w.top ≤ (input.getD w.groups 0).toNat

instance (input : Bytes) (k : Nat) : Decidable (LastAt input k) := by
  unfold LastAt; infer_instance

instance (w : Width) (input : Bytes) (k : Nat) : Decidable (Complete w input k) := by
  unfold Complete; infer_instance

instance (w : Width) (input : Bytes) : Decidable (Overfull w input) := by
  unfold Overfull; infer_instance

/-- The groups of seven bits up to the byte at `k`. -/
def groupSum (input : Bytes) (k : Nat) : Nat :=
  ∑ i ∈ Finset.range (k + 1), (input.getD i 0).toNat % 128 * 128 ^ i

variable {top groups k : Nat} {b : UInt8} {input rest : Bytes}

/-! ### One byte -/

theorem groupSum_cons (b : UInt8) (rest : Bytes) (k : Nat) :
    groupSum (b :: rest) (k + 1) = b.toNat % 128 + 128 * groupSum rest k := by
  unfold groupSum
  rw [Finset.sum_range_succ', Finset.mul_sum, Nat.add_comm]
  simp only [List.getD_cons_succ, List.getD_cons_zero, Nat.pow_zero, Nat.mul_one]
  congr 1
  exact Finset.sum_congr rfl fun i _ => by ring

theorem groupSum_zero (h : b.toNat < 128) : groupSum (b :: rest) 0 = b.toNat := by
  unfold groupSum
  rw [Finset.sum_range_one, List.getD_cons_zero, Nat.pow_zero, Nat.mul_one, Nat.mod_eq_of_lt h]

theorem LastAt.of_cons (h : LastAt (b :: rest) (k + 1)) : 128 ≤ b.toNat ∧ LastAt rest k :=
  ⟨h.2.2 0 (Nat.succ_pos k), Nat.lt_of_succ_lt_succ h.1, h.2.1, fun i hi => h.2.2 (i + 1) (Nat.succ_lt_succ hi)⟩

theorem Complete.of_cons (h : Complete ⟨groups + 1, top⟩ (b :: rest) (k + 1)) :
    128 ≤ b.toNat ∧ Complete ⟨groups, top⟩ rest k :=
  ⟨h.1.of_cons.1, h.1.of_cons.2, Nat.le_of_succ_le_succ h.2.1, h.2.2.imp_left Nat.lt_of_succ_lt_succ⟩

theorem Overfull.of_cons (h : Overfull ⟨groups + 1, top⟩ (b :: rest)) :
    128 ≤ b.toNat ∧ Overfull ⟨groups, top⟩ rest :=
  ⟨h.2.1 0 (Nat.succ_pos groups), Nat.lt_of_succ_lt_succ h.1,
    fun i hi => h.2.1 (i + 1) (Nat.succ_lt_succ hi), h.2.2⟩

theorem readGroups_nil (top groups : Nat) : readGroups top groups ([] : Bytes) = .error .endOfInput [] := by
  cases groups <;> rfl

theorem readGroups_last (top : Nat) (b : UInt8) (rest : Bytes) : readGroups top 0 (b :: rest) =
    if b.toNat < 2 ^ top then .ok b.toNat rest else .error .invalidVarint rest := by
  refine (bind_of_ok (x := Input.readByte) (t := rest) rfl).trans ?_
  rw [Nat.one_shiftLeft]
  split <;> rfl

theorem readGroups_of_lt (h : b.toNat < 128) : readGroups top (groups + 1) (b :: rest) = .ok b.toNat rest := by
  refine (bind_of_ok (x := Input.readByte) (t := rest) rfl).trans ?_
  rw [if_pos h]
  rfl

theorem readGroups_of_le (h : 128 ≤ b.toNat) : readGroups top (groups + 1) (b :: rest) =
    (do return b.toNat - 128 + 128 * (← readGroups top groups)) rest := by
  refine (bind_of_ok (x := Input.readByte) (t := rest) rfl).trans ?_
  rw [if_neg (Nat.not_lt.2 h)]

/-! ### The three outcomes -/

theorem readGroups_complete : ∀ {input : Bytes} {groups k : Nat}, Complete ⟨groups, top⟩ input k →
    readGroups top groups input = .ok (groupSum input k) (input.drop (k + 1))
  | [], _, _, h => absurd h.1.1 (Nat.not_lt_zero _)
  | b :: rest, 0, 0, h => by
    have hlt : b.toNat < 2 ^ top := h.2.2.resolve_left (Nat.lt_irrefl 0)
    have hlast : b.toNat < 128 := h.1.2.1
    rw [readGroups_last, if_pos hlt, groupSum_zero hlast]
    rfl
  | b :: rest, groups + 1, 0, h => by
    have hlt : b.toNat < 128 := h.1.2.1
    rw [readGroups_of_lt hlt, groupSum_zero hlt]
    rfl
  | b :: rest, 0, k + 1, h => absurd h.2.1 (Nat.not_succ_le_zero k)
  | b :: rest, groups + 1, k + 1, h => by
    obtain ⟨hle, hrest⟩ := h.of_cons
    have hbyte := b.toNat_lt
    have hmod : b.toNat - 128 = b.toNat % 128 := by omega
    rw [readGroups_of_le hle, bind_of_ok (readGroups_complete hrest), groupSum_cons, hmod]
    rfl

theorem readGroups_overfull : ∀ {input : Bytes} {groups : Nat}, Overfull ⟨groups, top⟩ input →
    readGroups top groups input = .error .invalidVarint (input.drop (groups + 1))
  | [], _, h => absurd h.1 (Nat.not_lt_zero _)
  | b :: rest, 0, h => by
    have hle : 2 ^ top ≤ b.toNat := h.2.2
    rw [readGroups_last, if_neg (Nat.not_lt.2 hle)]
    rfl
  | b :: rest, groups + 1, h => by
    obtain ⟨hle, hrest⟩ := h.of_cons
    rw [readGroups_of_le hle, bind_of_error (readGroups_overfull hrest)]
    rfl

theorem readGroups_short : ∀ {input : Bytes} {groups : Nat}, input.length ≤ groups → (∀ b ∈ input, 128 ≤ b.toNat) →
    readGroups top groups input = .error .endOfInput []
  | [], groups, _, _ => readGroups_nil top groups
  | _ :: _, 0, h, _ => absurd h (Nat.not_succ_le_zero _)
  | b :: rest, groups + 1, h, hmore => by
    rw [List.forall_mem_cons] at hmore
    rw [readGroups_of_le hmore.1, bind_of_error (readGroups_short (Nat.le_of_succ_le_succ h) hmore.2)]

/-- A number that is neither complete nor overfull goes on behind the last byte. -/
theorem runs_out {w : Width} (ht : w.top ≤ 7) (hcomplete : ¬∃ k, Complete w input k) (hoverfull : ¬Overfull w input) :
    input.length ≤ w.groups ∧ ∀ b ∈ input, 128 ≤ b.toNat := by
  have hwide : 2 ^ w.top ≤ 128 := Nat.pow_le_pow_right (n := 2) (by decide) ht
  -- by the first byte without a top bit the number would be one or the other
  have hmore : ∀ k, k < input.length → k ≤ w.groups → 128 ≤ (input.getD k 0).toNat := by
    intro k
    induction k using Nat.strongRecOn with
    | ind k ih =>
      intro hk hle
      have hbefore : ∀ i < k, 128 ≤ (input.getD i 0).toNat := fun i hi => ih i hi (hi.trans hk) (hi.le.trans hle)
      by_contra hlt
      have hlt := Nat.not_le.1 hlt
      by_cases hfits : k < w.groups ∨ (input.getD k 0).toNat < 2 ^ w.top
      · exact hcomplete ⟨k, ⟨hk, hlt, hbefore⟩, hle, hfits⟩
      · obtain rfl : k = w.groups := by omega
        exact hoverfull ⟨hk, hbefore, Nat.not_lt.1 fun h => hfits (Or.inr h)⟩
  have hshort : input.length ≤ w.groups := by
    by_contra hlong
    have hlong := Nat.not_le.1 hlong
    have hlast := hmore w.groups hlong le_rfl
    exact hoverfull ⟨hlong, fun i hi => hmore i (hi.trans hlong) hi.le, hwide.trans hlast⟩
  refine ⟨hshort, fun b hb => ?_⟩
  obtain ⟨k, hk, rfl⟩ := List.getElem_of_mem hb
  have hbyte := hmore k hk (hk.le.trans hshort)
  rwa [List.getD_eq_getElem _ _ hk] at hbyte

/-- **Reading a number is exact**, for numbers of 32 bits in at most five bytes and of 64 bits in at most ten.

It gives the sum of the groups up to the first byte without a top bit, if that byte is in time and not too large, and
takes the bytes of the number; it refuses a byte at the last place that is too large; else it runs out of bytes.  A
reader that shifts words does the same on any input, and none of its shifts is as large as the number of its bits. -/
theorem read_exact {w : Width} (hw : w = .w32 ∨ w = .w64) (input : Bytes) :
    (∀ k, Complete w input k →
      read w input = .ok (groupSum input k) (input.drop (k + 1)) ∧ groupSum input k < 2 ^ w.bits) ∧
    (Overfull w input → read w input = .error .invalidVarint (input.drop (w.groups + 1))) ∧
    ((¬∃ k, Complete w input k) → ¬Overfull w input → read w input = .error .endOfInput []) ∧
    (∃ taken ≤ w.groups + 1, taken ≤ input.length ∧ left (read w input) = input.drop taken) ∧
    ∀ (ι span : Type) [Input ι span],
      (Word.read w.bits : EStateM Error ι _) = (do return some (BitVec.ofNat w.bits (← read w))) := by
  have htop : 0 < w.top ∧ w.top ≤ 7 := by rcases hw with rfl | rfl <;> decide
  have hok : ∀ k, Complete w input k → read w input = .ok (groupSum input k) (input.drop (k + 1)) :=
    fun _ h => readGroups_complete h
  have hwide : Overfull w input → read w input = .error .invalidVarint (input.drop (w.groups + 1)) :=
    fun h => readGroups_overfull h
  have hend : (¬∃ k, Complete w input k) → ¬Overfull w input → read w input = .error .endOfInput [] := fun h h' =>
    have ⟨hshort, hmore⟩ := runs_out htop.2 h h'
    readGroups_short hshort hmore
  refine ⟨fun k h => ⟨hok k h, ?_⟩, hwide, hend, ?_, fun _ _ _ => Word.read_eq htop.1 htop.2⟩
  · obtain ⟨_, -, -, -, hlt⟩ := (read_eq_ok htop.2).1 (hok k h)
    rwa [Nat.one_shiftLeft] at hlt
  · by_cases hcomplete : ∃ k, Complete w input k
    · obtain ⟨k, h⟩ := hcomplete
      exact ⟨k + 1, Nat.succ_le_succ h.2.1, h.1.1, by rw [hok k h]; rfl⟩
    · by_cases hoverfull : Overfull w input
      · exact ⟨w.groups + 1, le_rfl, hoverfull.1, by rw [hwide hoverfull]; rfl⟩
      · obtain ⟨hshort, -⟩ := runs_out htop.2 hcomplete hoverfull
        refine ⟨input.length, hshort.trans (Nat.le_succ _), le_rfl, ?_⟩
        rw [hend hcomplete hoverfull, List.drop_length]
        rfl

/-- The last byte of 32 bits has four of them, and 16 is too large; that of 64 bits has one, and 1 is not. -/
theorem read_exact_edges : (Width.w32 = .w32 ∨ Width.w32 = .w64) ∧ (Width.w64 = .w32 ∨ Width.w64 = .w64) ∧
    Overfull .w32 [128, 128, 128, 128, 16, 7] ∧
    read .w32 ([128, 128, 128, 128, 16, 7] : Bytes) = .error .invalidVarint [7] ∧
    Complete .w64 [255, 255, 255, 255, 255, 255, 255, 255, 255, 1, 7] 9 ∧
    read .w64 ([255, 255, 255, 255, 255, 255, 255, 255, 255, 1, 7] : Bytes) = .ok 18446744073709551615 [7] := by
  have hwide : Overfull .w32 [128, 128, 128, 128, 16, 7] := by decide
  have hmax : Complete .w64 [255, 255, 255, 255, 255, 255, 255, 255, 255, 1, 7] 9 := by decide
  refine ⟨Or.inl rfl, Or.inr rfl, hwide, (read_exact (Or.inl rfl) _).2.1 hwide, hmax, ?_⟩
  rw [((read_exact (Or.inr rfl) _).1 9 hmax).1]
  rfl

end CompactWire.Varint

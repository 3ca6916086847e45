import Mathlib
import CompactWire.Proofs.RoundTrip
import CompactWire.Proofs.ShortestForm

/-!
# CompactWire.Proofs.Minimal — canonical bytes are the fewest

Every form of the wire that is not canonical is as long as the canonical one or longer: a number with more groups than it
needs, a number that is cut to 16 bits afterwards, a size or an id in full where a short form would do.  There is a lemma
for each of them, and `Straight.length_canonical_le` puts them together, by induction on how the bytes were written.

Ids that go round are the one exception: from the greatest ids a step reaches the least ones in a single byte, which no
canonical form does.  So minimality is among the byte strings without such a step, and the canonical one is among them.
-/

namespace CompactWire

variable {limits : Option Limits}

/-! ### Numbers -/

namespace Varint

theorem length_encode_mono {m n : Nat} (h : m ≤ n) : (encode m).length ≤ (encode n).length := by
  have hsize := Nat.size_le_size h
  rw [length_encode, length_encode, Nat.ceilDiv_eq_add_pred_div, Nat.ceilDiv_eq_add_pred_div]
  omega

/-- A number that is cut to fewer bits does not get a longer form. -/
theorem zigzag_bmod_le (i : Int) {k : Nat} (hk : 0 < k) : zigzag (i.bmod (2 * k)) ≤ zigzag i := by
  by_cases h : -(k : Int) ≤ i ∧ i < k
  · rw [Int.bmod_eq_of_le (by omega) (by omega)]
  · have hge := Int.le_bmod (x := i) (m := 2 * k) (by omega)
    have hlt := Int.bmod_lt (x := i) (m := 2 * k) (by omega)
    have hcut : zigzag (i.bmod (2 * k)) < 2 * k := zigzag_lt (by omega) (by omega)
    have hwide := zigzag_eq_ite i
    split at hwide <;> omega

theorem length_encodeSigned_le {w : Width} {n : Nat} {bs : Bytes} (h : w.Admits n bs) {k : Nat} (hk : 0 < k) :
    (encodeSigned ((unzigzag n).bmod (2 * k))).length ≤ bs.length := by
  have hle := zigzag_bmod_le (unzigzag n) hk
  rw [zigzag_unzigzag] at hle
  exact (length_encode_mono hle).trans h.1.length_encode_le

end Varint

/-! ### Headers -/

theorem CollectionHeader.Written.length_canonical_le {h : CollectionHeader} {bs : Bytes} (hw : h.Written limits bs) :
    h.canonical.length ≤ bs.length := by
  unfold canonical
  cases hw with
  | short _ hs => rw [if_pos hs]; exact le_rfl
  | long _ hs _ =>
    split
    · exact Nat.succ_le_succ (Nat.zero_le _)
    · exact Nat.succ_le_succ hs.1.length_encode_le

theorem FieldStraight.length_fieldHead_le {last id : Int16} {code : Nat} {head : Bytes}
    (h : FieldStraight last code id head) : (fieldHead last id code).length ≤ head.length := by
  unfold fieldHead
  cases h with
  | step pos le within =>
    have hstep := toInt_add_step within
    rw [if_pos (by omega)]
    exact le_rfl
  | @full n bs hm =>
    have hid := Varint.length_encodeSigned_le hm (k := 32768) (by decide)
    by_cases hs : 0 < (Int16.ofInt (Varint.unzigzag n)).toInt - last.toInt ∧
      (Int16.ofInt (Varint.unzigzag n)).toInt - last.toInt ≤ 15
    · rw [if_pos hs]
      exact Nat.succ_le_succ (Nat.zero_le _)
    · rw [if_neg hs, Int16.toInt_ofInt]
      exact Nat.succ_le_succ hid

namespace Phrase

/-- The canonical bytes of a phrase. -/
def canonical : Phrase → Bytes
  | value v => v.canonical
  | items vs => Value.canonicalItems vs
  | entries es => Value.canonicalEntries es
  | fields last fs => Value.canonicalFields last fs

theorem length_canonical_le_of_scalar {v : Value} {bs : Bytes} (hs : v.type.IsScalar) (h : Written limits (.value v) bs) :
    v.canonical.length ≤ bs.length := by
  cases h with
  | bool b => exact le_rfl
  | byte n => exact le_rfl
  | i16 hm =>
    rw [Value.canonical, Int16.toInt_ofInt]
    exact Varint.length_encodeSigned_le hm (k := 32768) (by decide)
  | i32 hm =>
    rw [Value.canonical, Int32.toInt_ofInt]
    exact Varint.length_encodeSigned_le hm (k := 2147483648) (by decide)
  | i64 hm =>
    rw [Value.canonical, Int64.toInt_ofInt]
    exact Varint.length_encodeSigned_le hm (k := 9223372036854775808) (by decide)
  | double bits => exact le_rfl
  | binary hm _ =>
    rw [Value.canonical, List.length_append, List.length_append]
    exact Nat.add_le_add_right hm.1.length_encode_le _
  | list | set | emptyMap | map | struct => cases hs

theorem length_append_le {a b bs rest : Bytes} (h₁ : a.length ≤ bs.length) (h₂ : b.length ≤ rest.length) :
    (a ++ b).length ≤ (bs ++ rest).length := by
  rw [List.length_append, List.length_append]
  exact Nat.add_le_add h₁ h₂

/-- No way to write a phrase without a step that goes round is shorter than the canonical one. -/
theorem Straight.length_canonical_le {p : Phrase} {bs : Bytes} (h : Straight limits p bs) :
    p.canonical.length ≤ bs.length := by
  induction h with
  | scalar hs hw => exact length_canonical_le_of_scalar hs hw
  | list hh _ _ ih => exact length_append_le hh.length_canonical_le ih
  | set hh _ _ ih => exact length_append_le hh.length_canonical_le ih
  | emptyMap hs => exact hs.1.length_pos
  | map hne hs _ _ _ _ _ ih =>
    rw [canonical, Value.canonical_map hne]
    exact length_append_le hs.1.length_encode_le (Nat.succ_le_succ ih)
  | struct _ ih => exact ih
  | noItems | noEntries | stop => exact le_rfl
  | item _ _ ih₁ ih₂ => exact length_append_le ih₁ ih₂
  | entry _ _ _ ih₁ ih₂ ih₃ => exact length_append_le (length_append_le ih₁ ih₂) ih₃
  | boolField hh _ ih => exact length_append_le hh.length_fieldHead_le ih
  | field hb hh _ _ ih₁ ih₂ =>
    rw [canonical, Value.canonicalFields_cons, Value.canonicalMember_of_ne hb]
    exact length_append_le (length_append_le hh.length_fieldHead_le ih₁) ih₂

end Phrase

/-! ### Records -/

theorem Value.allowed_none (v : Value) : v.Allowed none := by
  have hnone {n : Nat} : Limits.AllowsSize none n := fun _ hl => absurd hl (Option.not_mem_none _)
  cases v with
  | binary bytes => exact fun _ hl => absurd hl (Option.not_mem_none _)
  | list | set => exact Or.inr hnone
  | map => exact hnone
  | _ => trivial

namespace Record

/-- **Encoding is shortest**: a record that some byte string decodes to has an encoding, which decodes to the record under
the same limits and in which no id goes round, and it is no longer than any byte string without such an id that decodes
to the record under any limits. -/
theorem encode_minimal {limits : Limits} {b : Bytes} {s : Record} (h : Record.decode limits b = .ok s) :
    ∃ b', s.encode = .ok b' ∧ Record.decode limits b' = .ok s ∧ Phrase.Straight none (.fields 0 s) b' ∧
      ∀ limits' c, Record.decode limits' c = .ok s → Phrase.Straight none (.fields 0 s) c → b'.length ≤ c.length := by
  obtain ⟨hwritten, hheight, hstructs⟩ := decode_eq_ok.1 h
  have hparts : ∀ p ∈ s.parts, p.Writable ∧ p.Allowed (some limits) := hwritten.parts
  have hnormal : s.normal = s := hwritten.normal
  have hwithin := straight_canonical hparts
  have hstraight := straight_canonical fun p hp => ⟨(hparts p hp).1, p.allowed_none⟩
  rw [hnormal] at hwithin hstraight
  refine ⟨s.canonical, encode_of_writable fun p hp => (hparts p hp).1, ?_, hstraight, fun limits' c _ hc => ?_⟩
  · exact decode_eq_ok.2 ⟨hwithin.written, hheight, hstructs⟩
  · exact hc.length_canonical_le

/-- A number and an id that are both longer than they need to be. -/
theorem encode_minimal_long : Record.decode {} [4, 2, 130, 128, 0, 0] = .ok [(1, .i16 1)] ∧
    Phrase.Straight none (.fields 0 [(1, .i16 1)]) [4, 2, 130, 128, 0, 0] ∧
    ∃ b', Record.encode [(1, .i16 1)] = .ok b' ∧ b'.length ≤ 6 := by
  have h : Record.decode {} [4, 2, 130, 128, 0, 0] = .ok [(1, .i16 1)] := by cbv
  have hid : Varint.Width.w32.Admits 2 [2] := ⟨.last (b := 2) (by decide), by decide, by decide⟩
  have hnumber : Varint.Width.w32.Admits 2 [130, 128, 0] :=
    ⟨.more (b := 130) (by decide) (.more (b := 128) (by decide) (.last (b := 0) (by decide))), by decide, by decide⟩
  have hstraight : Phrase.Straight none (.fields 0 [(1, .i16 1)]) ([4, 2] ++ [130, 128, 0] ++ [0]) :=
    .field (by decide) (.full hid) (.scalar trivial (.i16 hnumber)) .stop
  obtain ⟨b', henc, -, -, hle⟩ := encode_minimal h
  exact ⟨h, hstraight, b', henc, hle {} _ h hstraight⟩

/-- From the greatest id to the least one a step is shorter than any other way. -/
example : Record.decode {} [4, 254, 255, 3, 0, 20, 0, 0] = .ok [(32767, .i16 0), (-32768, .i16 0)] ∧
    Record.encode [(32767, .i16 0), (-32768, .i16 0)] = .ok [4, 254, 255, 3, 0, 4, 255, 255, 3, 0, 0] := by
  constructor <;> cbv

end Record

end CompactWire

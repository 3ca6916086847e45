import CompactWire.Grammar
import CompactWire.Value.Normal
import CompactWire.Value.Parts

/-!
# CompactWire.Proofs.Grammar — the grammar backwards, and what is written by it

* `written_…`: the ways to write a value, by its constructor; `written_fields_cons` for fields, one at a time.
* `Written.parts`: in what is written by the grammar every part is typed as it declares, has a size of 32 bits and keeps
  to the limits that its form is subject to.
* `Written.normal`: what is written is in normal form.
-/

namespace CompactWire

/-! ### Headers -/

/-- The bytes behind the first byte of a field header, which gives the step to its id. -/
def FieldIdForm (last : Int16) (step : Nat) (id : Int16) (bs : Bytes) : Prop :=
  if step = 0 then ∃ m, id = Int16.ofInt (Varint.unzigzag m) ∧ Varint.Width.w32.Admits m bs
  else id = last + Int16.ofNat step ∧ bs = []

theorem fieldWritten_iff {last id : Int16} {code : Nat} {head : Bytes} : FieldWritten last code id head ↔
    ∃ step tail, step < 16 ∧ head = nibbles step code :: tail ∧ FieldIdForm last step id tail := by
  unfold FieldIdForm
  refine ⟨?_, ?_⟩
  · rintro (⟨pos, le⟩ | ⟨hm⟩)
    · exact ⟨_, [], by omega, rfl, by rw [if_neg (by omega)]; exact ⟨rfl, rfl⟩⟩
    · exact ⟨0, _, by omega, rfl, by rw [if_pos rfl]; exact ⟨_, rfl, hm⟩⟩
  · rintro ⟨step, tail, hlt, rfl, h⟩
    split at h
    · rename_i h0
      obtain ⟨m, rfl, hm⟩ := h
      rw [h0]
      exact .full hm
    · obtain ⟨rfl, rfl⟩ := h
      exact .step (by omega) (by omega)

theorem FieldWritten.length_pos {last id : Int16} {code : Nat} {head : Bytes} (h : FieldWritten last code id head) :
    0 < head.length := by
  obtain ⟨step, tail, -, rfl, -⟩ := fieldWritten_iff.1 h
  exact Nat.succ_pos _

/-- The size in a header has 32 bits, and it keeps to the limits unless it shares a byte with the type. -/
theorem CollectionHeader.Written.size {limits : Option Limits} {h : CollectionHeader} {bs : Bytes}
    (hw : h.Written limits bs) : h.size < UInt32.size ∧ (h.size ≤ 14 ∨ Limits.AllowsSize limits h.size) := by
  cases hw with
  | short _ hs => exact ⟨Nat.lt_of_le_of_lt hs (by decide), Or.inl hs⟩
  | long _ hs ha => exact ⟨hs.2.2, Or.inr ha⟩

namespace Phrase

variable {limits : Option Limits} {bs : Bytes}

/-! ### Values by their constructors -/

theorem written_bool {b : Bool} : Written limits (.value (.bool b)) bs ↔ ∃ c : UInt8, b = decide (c = 1) ∧ bs = [c] :=
  ⟨fun h => by cases h with | bool c => exact ⟨c, rfl, rfl⟩, fun ⟨c, hb, hbs⟩ => hb ▸ hbs ▸ .bool c⟩

theorem written_byte {m : Int8} : Written limits (.value (.byte m)) bs ↔ bs = [m.toUInt8] :=
  ⟨fun h => by cases h; rfl, fun h => h ▸ .byte m⟩

theorem written_i16 {i : Int16} : Written limits (.value (.i16 i)) bs ↔
    ∃ m, i = Int16.ofInt (Varint.unzigzag m) ∧ Varint.Width.w32.Admits m bs :=
  ⟨fun h => by cases h with | i16 hm => exact ⟨_, rfl, hm⟩, fun ⟨_, hi, hm⟩ => hi ▸ .i16 hm⟩

theorem written_i32 {i : Int32} : Written limits (.value (.i32 i)) bs ↔
    ∃ m, i = Int32.ofInt (Varint.unzigzag m) ∧ Varint.Width.w32.Admits m bs :=
  ⟨fun h => by cases h with | i32 hm => exact ⟨_, rfl, hm⟩, fun ⟨_, hi, hm⟩ => hi ▸ .i32 hm⟩

theorem written_i64 {i : Int64} : Written limits (.value (.i64 i)) bs ↔
    ∃ m, i = Int64.ofInt (Varint.unzigzag m) ∧ Varint.Width.w64.Admits m bs :=
  ⟨fun h => by cases h with | i64 hm => exact ⟨_, rfl, hm⟩, fun ⟨_, hi, hm⟩ => hi ▸ .i64 hm⟩

theorem written_double {bits : UInt64} :
    Written limits (.value (.double bits)) bs ↔ bs = Bytes.littleEndian 8 bits.toNat :=
  ⟨fun h => by cases h; rfl, fun h => h ▸ .double bits⟩

theorem written_binary {a : Bytes} : Written limits (.value (.binary a)) bs ↔
    ∃ head, bs = head ++ a ∧ Varint.Width.w32.Admits a.length head ∧ Limits.AllowsLength limits a.length :=
  ⟨fun h => by cases h with | binary hm hle => exact ⟨_, rfl, hm, hle⟩, fun ⟨_, hbs, hm, hle⟩ => hbs ▸ .binary hm hle⟩

/-- The forms of a list or set: a head and the elements. -/
def CollectionForm (limits : Option Limits) (element : WireType) (vs : List Value) (bs : Bytes) : Prop :=
  ∃ head tail, bs = head ++ tail ∧ CollectionHeader.Written limits ⟨element, vs.length⟩ head ∧
    (∀ v ∈ vs, v.type = element) ∧ Written limits (.items vs) tail

theorem written_list {element : WireType} {vs : List Value} :
    Written limits (.value (.list element vs)) bs ↔ CollectionForm limits element vs bs :=
  ⟨fun h => by cases h with | list hh ht hi => exact ⟨_, _, rfl, hh, ht, hi⟩,
    fun ⟨_, _, hbs, hh, ht, hi⟩ => hbs ▸ .list hh ht hi⟩

theorem written_set {element : WireType} {vs : List Value} :
    Written limits (.value (.set element vs)) bs ↔ CollectionForm limits element vs bs :=
  ⟨fun h => by cases h with | set hh ht hi => exact ⟨_, _, rfl, hh, ht, hi⟩,
    fun ⟨_, _, hbs, hh, ht, hi⟩ => hbs ▸ .set hh ht hi⟩

/-! ### Fields one at a time -/

/-- The forms of a field: a header that is the whole of a boolean field, or a header and a value. -/
def MemberForm (limits : Option Limits) (last id : Int16) (v : Value) (bs : Bytes) : Prop :=
  (∃ b, v = .bool b ∧ FieldWritten last (WireType.boolCode b) id bs) ∨
  (v.type ≠ .bool ∧ ∃ head tail, bs = head ++ tail ∧ FieldWritten last v.type.code id head ∧
    Written limits (.value v) tail)

theorem MemberForm.length_pos {last id : Int16} {v : Value} (h : MemberForm limits last id v bs) : 0 < bs.length := by
  rcases h with ⟨_, -, hh⟩ | ⟨-, _, _, rfl, hh, -⟩
  · exact hh.length_pos
  · rw [List.length_append]
    exact Nat.add_pos_left hh.length_pos _

theorem written_fields_nil {last : Int16} : Written limits (.fields last []) bs ↔ bs = [0] :=
  ⟨fun h => by cases h; rfl, fun h => h ▸ .stop⟩

theorem written_fields_cons {last id : Int16} {v : Value} {fs : Record} :
    Written limits (.fields last ((id, v) :: fs)) bs ↔
      ∃ bs₁ bs₂, bs = bs₁ ++ bs₂ ∧ MemberForm limits last id v bs₁ ∧ Written limits (.fields id fs) bs₂ := by
  refine ⟨fun h => ?_, ?_⟩
  · cases h with
    | boolField hh ho => exact ⟨_, _, rfl, Or.inl ⟨_, rfl, hh⟩, ho⟩
    | field hb hh hv ho => exact ⟨_, _, rfl, Or.inr ⟨hb, _, _, rfl, hh, hv⟩, ho⟩
  · rintro ⟨_, _, rfl, ⟨_, rfl, hh⟩ | ⟨hb, _, _, rfl, hh, hv⟩, ho⟩
    · exact .boolField hh ho
    · exact .field hb hh hv ho

/-! ### What is written -/

/-- The values in a phrase at every depth. -/
def parts : Phrase → List Value
  | value v => v.parts
  | items vs => Value.itemParts vs
  | entries es => Value.entryParts es
  | fields _ fs => Value.fieldParts fs

/-- A phrase in normal form. -/
def Normal : Phrase → Prop
  | value v => v.normal = v
  | items vs => vs.map Value.normal = vs
  | entries es => es.map (fun e => (e.1.normal, e.2.normal)) = es
  | fields _ fs => fs.map (fun f => (f.1, f.2.normal)) = fs

end Phrase

/-- The size of a value by itself passes the limits: a list or set of up to 14 elements is not checked. -/
def Value.Allowed (limits : Option Limits) : Value → Prop
  | .binary bytes => Limits.AllowsLength limits bytes.length
  | .list _ items => items.length ≤ 14 ∨ Limits.AllowsSize limits items.length
  | .set _ items => items.length ≤ 14 ∨ Limits.AllowsSize limits items.length
  | .map _ _ entries => Limits.AllowsSize limits entries.length
  | _ => True

theorem Value.Fits.allowed {limits : Limits} {v : Value} (h : v.Fits limits) : v.Allowed limits := by
  cases v with
  | binary bytes => exact Limits.allowsLength_some.2 h.1
  | list element items => exact Or.inr (Limits.allowsSize_some.2 h.2)
  | set element items => exact Or.inr (Limits.allowsSize_some.2 h.2)
  | map key value entries => exact Limits.allowsSize_some.2 h.2
  | _ => trivial

theorem Value.writable_leaf {limits : Option Limits} {v : Value} (hp : v.parts = [v]) (hw : v.Writable)
    (ha : v.Allowed limits) : ∀ p ∈ v.parts, p.Writable ∧ p.Allowed limits := by
  rw [hp]
  exact List.forall_mem_singleton.2 ⟨hw, ha⟩

theorem zero_lt_size : 0 < UInt32.size := by decide

theorem Phrase.Written.parts {limits : Option Limits} {p : Phrase} {bs : Bytes} (h : Written limits p bs) :
    ∀ q ∈ p.parts, q.Writable ∧ q.Allowed limits := by
  induction h with
  | bool | byte | i16 | i32 | i64 | double =>
    exact Value.writable_leaf rfl ⟨trivial, zero_lt_size, zero_lt_size⟩ trivial
  | binary hm ha => exact Value.writable_leaf rfl ⟨trivial, hm.2.2, zero_lt_size⟩ ha
  | list hh ht _ ih => exact List.forall_mem_cons.2 ⟨⟨⟨ht, zero_lt_size, hh.size.1⟩, hh.size.2⟩, ih⟩
  | set hh ht _ ih => exact List.forall_mem_cons.2 ⟨⟨⟨ht, zero_lt_size, hh.size.1⟩, hh.size.2⟩, ih⟩
  | emptyMap hs =>
    refine Value.writable_leaf rfl ⟨?_, zero_lt_size, zero_lt_size⟩ (fun _ _ => Nat.zero_le _)
    exact fun _ h => absurd h List.not_mem_nil
  | map _ hs ha _ _ ht _ ih =>
    refine List.forall_mem_cons.2 ⟨⟨⟨fun e he => ?_, zero_lt_size, hs.2.2⟩, ha⟩, ih⟩
    obtain ⟨hk, hv⟩ := ht e he
    exact ⟨by rw [hk], by rw [hv]⟩
  | struct _ ih => exact List.forall_mem_cons.2 ⟨⟨⟨trivial, zero_lt_size, zero_lt_size⟩, trivial⟩, ih⟩
  | noItems | noEntries | stop => exact fun _ h => absurd h List.not_mem_nil
  | item _ _ ih₁ ih₂ => exact List.forall_mem_append.2 ⟨ih₁, ih₂⟩
  | entry _ _ _ ih₁ ih₂ ih₃ => exact List.forall_mem_append.2 ⟨List.forall_mem_append.2 ⟨ih₁, ih₂⟩, ih₃⟩
  | boolField _ _ ih =>
    exact List.forall_mem_append.2 ⟨Value.writable_leaf rfl ⟨trivial, zero_lt_size, zero_lt_size⟩ trivial, ih⟩
  | field _ _ _ _ ih₁ ih₂ => exact List.forall_mem_append.2 ⟨ih₁, ih₂⟩

theorem Phrase.Written.normal {limits : Option Limits} {p : Phrase} {bs : Bytes} (h : Written limits p bs) :
    p.Normal := by
  induction h with
  | bool | byte | i16 | i32 | i64 | double | binary | emptyMap => rfl
  | list _ _ _ ih => simpa [Normal, Value.normal] using ih
  | set _ _ _ ih => simpa [Normal, Value.normal] using ih
  | @map _ _ es _ _ _ _ hne _ _ _ _ _ _ ih =>
    cases es with
    | nil => exact absurd rfl hne
    | cons e es =>
      show Value.map _ _ (Value.normalEntries (e :: es)) = _
      rw [Value.normalEntries_eq_map, show _ = e :: es from ih]
  | struct _ ih => simpa [Normal, Value.normal] using ih
  | noItems | noEntries | stop => rfl
  | item _ _ ih₁ ih₂ => exact List.cons_eq_cons.2 ⟨ih₁, ih₂⟩
  | entry _ _ _ ih₁ ih₂ ih₃ => exact List.cons_eq_cons.2 ⟨Prod.ext ih₁ ih₂, ih₃⟩
  | boolField _ _ ih => exact List.cons_eq_cons.2 ⟨rfl, ih⟩
  | field _ _ _ _ ih₁ ih₂ => exact List.cons_eq_cons.2 ⟨Prod.ext rfl ih₁, ih₂⟩

end CompactWire

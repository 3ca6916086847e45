import CompactWire.Grammar.Straight
import CompactWire.Proofs.Grammar
import CompactWire.Proofs.Varint
import CompactWire.Value.Canonical

/-!
# CompactWire.Proofs.Canonical — the form that is chosen is in the grammar

* `Straight.written`: what is written without a step that goes round is written.
* `straight_canonical`: if the parts of a value are writable and pass the limits, its canonical bytes are a way to write
  its normal form under these limits, without a step that goes round.

The induction is on the value; elements, entries and fields are lemmas over values for which the statement holds.
-/

namespace CompactWire

variable {limits : Option Limits}

/-! ### Numbers -/

namespace Varint

theorem admits_size {size : Nat} (h : size < UInt32.size) : Width.w32.Admits size (encode size) :=
  admits_encode (by decide) h

/-- The size of an empty map. -/
theorem admits_zero : Width.w32.Admits 0 [0] := by
  have h := admits_size (show 0 < UInt32.size by decide)
  rwa [encode, if_pos (by decide)] at h

theorem zigzag_lt {i : Int} {k : Nat} (h₁ : -k ≤ i) (h₂ : i < k) : zigzag i < 2 * k := by
  cases i with
  | ofNat m => simp only [zigzag, Int.ofNat_eq_natCast] at *; omega
  | negSucc m => simp only [zigzag] at *; omega

theorem admits_i16 (n : Int16) : Width.w32.Admits (zigzag n.toInt) (encodeSigned n.toInt) :=
  admits_encode (by decide) (Nat.lt_of_lt_of_le (zigzag_lt (k := 32768) n.le_toInt n.toInt_lt) (by decide))

theorem admits_i32 (n : Int32) : Width.w32.Admits (zigzag n.toInt) (encodeSigned n.toInt) :=
  admits_encode (by decide) (zigzag_lt (k := 2147483648) n.le_toInt n.toInt_lt)

theorem admits_i64 (n : Int64) : Width.w64.Admits (zigzag n.toInt) (encodeSigned n.toInt) :=
  admits_encode (by decide) (zigzag_lt (k := 9223372036854775808) n.le_toInt n.toInt_lt)

end Varint

/-! ### Headers -/

theorem CollectionHeader.written_canonical {h : CollectionHeader} (size : h.size < UInt32.size)
    (allowed : h.size ≤ 14 ∨ Limits.AllowsSize limits h.size) : h.Written limits h.canonical := by
  unfold canonical
  split
  · rename_i hs
    exact .short (WireType.ofCode?_code _) hs
  · rename_i hs
    exact .long (WireType.ofCode?_code _) (Varint.admits_size size) (allowed.resolve_left hs)

theorem FieldStraight.written {last id : Int16} {code : Nat} {head : Bytes} (h : FieldStraight last code id head) :
    FieldWritten last code id head := by
  cases h with
  | step pos le _ => exact .step pos le
  | full hm => exact .full hm

/-- A step that stays within the ids is the difference of two ids. -/
theorem toInt_add_step {last : Int16} {d : Nat} (within : last.toInt + d < 32768) :
    (last + Int16.ofNat d).toInt = last.toInt + d := by
  have hge := last.le_toInt
  have hsize : (Int16.size : Int) = 65536 := rfl
  rw [Int16.toInt_add, Int16.toInt_ofNat', Int.add_bmod_bmod]
  exact Int.bmod_eq_of_le (by omega) (by omega)

theorem straight_fieldHead (last id : Int16) (code : Nat) : FieldStraight last code id (fieldHead last id code) := by
  unfold fieldHead
  by_cases h : 0 < id.toInt - last.toInt ∧ id.toInt - last.toInt ≤ 15
  · have hlt := id.toInt_lt
    have hwithin : last.toInt + (id.toInt - last.toInt).toNat < 32768 := by omega
    have hid : last + Int16.ofNat (id.toInt - last.toInt).toNat = id := by
      rw [← Int16.toInt_inj, toInt_add_step hwithin]
      omega
    have hs : FieldStraight last code (last + Int16.ofNat (id.toInt - last.toInt).toNat)
      [nibbles (id.toInt - last.toInt).toNat code] := .step (by omega) (by omega) hwithin
    rw [if_pos h]
    rwa [hid] at hs
  · have hf : FieldStraight last code (Int16.ofInt (Varint.unzigzag (Varint.zigzag id.toInt)))
      (nibbles 0 code :: Varint.encodeSigned id.toInt) := .full (Varint.admits_i16 id)
    rw [if_neg h]
    rwa [Varint.unzigzag_zigzag, Int16.ofInt_toInt] at hf

namespace Phrase

theorem Straight.written {p : Phrase} {bs : Bytes} (h : Straight limits p bs) : Written limits p bs := by
  induction h with
  | scalar _ hw => exact hw
  | list hh ht _ ih => exact .list hh ht ih
  | set hh ht _ ih => exact .set hh ht ih
  | emptyMap hs => exact .emptyMap hs
  | map hne hs ha hk hv ht _ ih => exact .map hne hs ha hk hv ht ih
  | struct _ ih => exact .struct ih
  | noItems => exact .noItems
  | item _ _ ih₁ ih₂ => exact .item ih₁ ih₂
  | noEntries => exact .noEntries
  | entry _ _ _ ih₁ ih₂ ih₃ => exact .entry ih₁ ih₂ ih₃
  | stop => exact .stop
  | boolField hh _ ih => exact .boolField hh.written ih
  | field hb hh _ _ ih₁ ih₂ => exact .field hb hh.written ih₁ ih₂

/-! ### Elements, entries and fields -/

theorem straight_items {vs : List Value} (h : ∀ v ∈ vs, Straight limits (.value v.normal) v.canonical) :
    Straight limits (.items (vs.map Value.normal)) (Value.canonicalItems vs) := by
  induction vs with
  | nil => exact .noItems
  | cons v vs ih =>
    rw [List.forall_mem_cons] at h
    exact .item h.1 (ih h.2)

theorem straight_entries {es : List (Value × Value)}
    (h : ∀ e ∈ es, Straight limits (.value e.1.normal) e.1.canonical ∧ Straight limits (.value e.2.normal) e.2.canonical) :
    Straight limits (.entries (es.map fun e => (e.1.normal, e.2.normal))) (Value.canonicalEntries es) := by
  induction es with
  | nil => exact .noEntries
  | cons e es ih =>
    rw [List.forall_mem_cons] at h
    exact .entry h.1.1 h.1.2 (ih h.2)

theorem straight_fields {fs : Record} (h : ∀ f ∈ fs, Straight limits (.value f.2.normal) f.2.canonical)
    (last : Int16) : Straight limits (.fields last fs.normal) (Value.canonicalFields last fs) := by
  induction fs generalizing last with
  | nil => exact .stop
  | cons f fs ih =>
    obtain ⟨id, v⟩ := f
    rw [List.forall_mem_cons] at h
    by_cases hb : v.type = .bool
    · cases v with
      | bool b => exact .boolField (straight_fieldHead last id _) (ih h.2 id)
      | _ => cases hb
    · rw [Value.canonicalFields_cons, Value.canonicalMember_of_ne hb, ← Value.type_normal]
      exact .field (by rwa [Value.type_normal]) (straight_fieldHead last id _) h.1 (ih h.2 id)

end Phrase

/-! ### Values -/

namespace Value

theorem written_head {element : WireType} {vs : List Value} (size : vs.length < UInt32.size)
    (allowed : vs.length ≤ 14 ∨ Limits.AllowsSize limits vs.length) :
    CollectionHeader.Written limits ⟨element, (vs.map normal).length⟩
      (CollectionHeader.canonical ⟨element, vs.length⟩) := by
  rw [List.length_map]
  exact CollectionHeader.written_canonical size allowed

theorem types_normal {element : WireType} {vs : List Value} (h : ∀ v ∈ vs, v.type = element) :
    ∀ v ∈ vs.map normal, v.type = element := by
  simpa using h

theorem straight_map {key val : Option WireType} {es : List (Value × Value)} (hw : (Value.map key val es).Writable)
    (ha : Limits.AllowsSize limits es.length)
    (h : ∀ e ∈ es, Phrase.Straight limits (.value e.1.normal) e.1.canonical ∧
      Phrase.Straight limits (.value e.2.normal) e.2.canonical) :
    Phrase.Straight limits (.value (Value.map key val es).normal) (Value.map key val es).canonical := by
  obtain ⟨ht, -, hsize⟩ := hw
  cases es with
  | nil => exact .emptyMap Varint.admits_zero
  | cons e es =>
    obtain ⟨rfl, rfl⟩ := ht e List.mem_cons_self
    have hentries := Phrase.straight_entries h
    have hlength : ((e :: es).map fun e => (e.1.normal, e.2.normal)).length = (e :: es).length := List.length_map _
    rw [canonical_map (List.cons_ne_nil _ _), normal, normalEntries_eq_map]
    refine .map (List.cons_ne_nil _ _) ?_ ?_ (WireType.ofCode?_code _) (WireType.ofCode?_code _) ?_ hentries
    · rw [hlength]
      exact Varint.admits_size hsize
    · rw [hlength]
      exact ha
    · simp only [List.forall_mem_map, Value.type_normal]
      exact fun f hf => ⟨(Option.some.inj (ht f hf).1).symm, (Option.some.inj (ht f hf).2).symm⟩

theorem straight_canonical {v : Value} (h : ∀ p ∈ v.parts, p.Writable ∧ p.Allowed limits) :
    Phrase.Straight limits (.value v.normal) v.canonical := by
  induction v with
  | bool b =>
    refine .scalar trivial (Phrase.written_bool.2 ⟨_, ?_, rfl⟩)
    cases b <;> decide
  | byte n => exact .scalar trivial (.byte n)
  | i16 n =>
    refine .scalar trivial (Phrase.written_i16.2 ⟨_, ?_, Varint.admits_i16 n⟩)
    rw [Varint.unzigzag_zigzag, Int16.ofInt_toInt]
  | i32 n =>
    refine .scalar trivial (Phrase.written_i32.2 ⟨_, ?_, Varint.admits_i32 n⟩)
    rw [Varint.unzigzag_zigzag, Int32.ofInt_toInt]
  | i64 n =>
    refine .scalar trivial (Phrase.written_i64.2 ⟨_, ?_, Varint.admits_i64 n⟩)
    rw [Varint.unzigzag_zigzag, Int64.ofInt_toInt]
  | double bits => exact .scalar trivial (.double bits)
  | binary bytes =>
    obtain ⟨⟨-, hlength, -⟩, ha⟩ := h _ (self_mem_parts _)
    exact .scalar trivial (.binary (Varint.admits_size hlength) ha)
  | list element vs ih =>
    obtain ⟨⟨⟨ht, -, hsize⟩, ha⟩, hparts⟩ := List.forall_mem_cons.1 h
    have hitems := Phrase.straight_items fun v hv => ih v hv (forall_mem_itemParts.1 hparts v hv)
    rw [normal, normalItems_eq_map]
    exact .list (written_head hsize ha) (types_normal ht) hitems
  | set element vs ih =>
    obtain ⟨⟨⟨ht, -, hsize⟩, ha⟩, hparts⟩ := List.forall_mem_cons.1 h
    have hitems := Phrase.straight_items fun v hv => ih v hv (forall_mem_itemParts.1 hparts v hv)
    rw [normal, normalItems_eq_map]
    exact .set (written_head hsize ha) (types_normal ht) hitems
  | map key val es ih =>
    obtain ⟨⟨hw, ha⟩, hparts⟩ := List.forall_mem_cons.1 h
    refine straight_map hw ha fun e he => ?_
    obtain ⟨hk, hv⟩ := forall_mem_entryParts.1 hparts e he
    exact ⟨(ih e he).1 hk, (ih e he).2 hv⟩
  | struct fs ih =>
    obtain ⟨-, hparts⟩ := List.forall_mem_cons.1 h
    rw [normal, normalFields_eq_map]
    exact .struct (Phrase.straight_fields (fun f hf => ih f hf (forall_mem_fieldParts.1 hparts f hf)) 0)

end Value

/-- The canonical bytes of a record are a way to write its normal form. -/
theorem Record.straight_canonical {r : Record} (h : ∀ p ∈ r.parts, p.Writable ∧ p.Allowed limits) :
    Phrase.Straight limits (.fields 0 r.normal) r.canonical :=
  Phrase.straight_fields (fun f hf => Value.straight_canonical (Value.forall_mem_fieldParts.1 h f hf)) 0

end CompactWire

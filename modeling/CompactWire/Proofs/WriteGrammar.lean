import CompactWire.Proofs.Canonical
import CompactWire.Proofs.Writing
import CompactWire.Record

/-!
# CompactWire.Proofs.WriteGrammar — a writer writes what the grammar says

* `writes_value`: a value all of whose parts are `Writable` is written in its canonical form, behind whatever was
  written before.
* `onlyEncodable`: no other value is written in full.
* `Record.encode_eq_ok`: so a record has an encoding exactly if all its parts are writable, and its canonical bytes are
  the encoding.  They are a way to write its normal form under all limits that allow the parts (`written_of_encode`).

Both inductions are on the value; the loops over items, entries and fields are lemmas over values for which the
statement holds already.
-/

namespace CompactWire

open Outcome

namespace Writer

variable {w : Writer}

/-- All parts of a value can be written. -/
def Encodable (v : Value) : Prop := ∀ p ∈ v.parts, p.Writable

/-! ### Elements, entries and fields -/

theorem checkType_eq {declared : Option WireType} {v : Value} (h : declared = some v.type) (w : Writer) :
    checkType declared v w = .ok () w := by
  unfold checkType
  rw [if_neg (by simpa using h)]
  rfl

theorem writes_checked {declared : Option WireType} {v : Value} {x : Writing Unit} {bs : Bytes}
    (h : declared = some v.type) (hx : Writes x bs) : Writes (do checkType declared v; x) bs := by
  intro w hp
  rw [bind_of_ok (checkType_eq h w), hx w hp]

theorem writes_items {element : WireType} {vs : List Value} (ht : ∀ v ∈ vs, v.type = element)
    (hv : ∀ v ∈ vs, Writes (value v) v.canonical) : Writes (items element vs) (Value.canonicalItems vs) := by
  induction vs with
  | nil => exact Writes.nil
  | cons v vs ih =>
    rw [List.forall_mem_cons] at ht hv
    exact writes_checked (by rw [ht.1]) (hv.1.bind (ih ht.2 hv.2))

theorem writes_entries {key val : Option WireType} {es : List (Value × Value)}
    (ht : ∀ e ∈ es, key = some e.1.type ∧ val = some e.2.type)
    (hv : ∀ e ∈ es, Writes (value e.1) e.1.canonical ∧ Writes (value e.2) e.2.canonical) :
    Writes (entries key val es) (Value.canonicalEntries es) := by
  induction es with
  | nil => exact Writes.nil
  | cons e es ih =>
    rw [List.forall_mem_cons] at ht hv
    obtain ⟨hkey, hval⟩ := hv.1
    have hboth := hkey.bind (hval.bind (ih ht.2 hv.2))
    rw [← List.append_assoc] at hboth
    exact writes_checked ht.1.1 (writes_checked ht.1.2 hboth)

/-- One field: the header of a boolean waits for it, any other value follows its header. -/
theorem member_eq {last : Int16} (id : Int16) {v : Value} (hv : Writes (value v) v.canonical)
    (hp : w.pendingBool = none) (hl : w.lastId = last) :
    (do fieldBegin ⟨id, v.type⟩; value v) w = .ok () (w.addFields (Value.canonicalMember last id v) id) := by
  by_cases hb : v.type = .bool
  · cases v with
    | bool b =>
      have hbegin : fieldBegin ⟨id, .bool⟩ w = .ok () { w with pendingBool := some id } :=
        (bind_of_ok (checkPending_eq hp)).trans rfl
      refine (bind_of_ok hbegin).trans ?_
      -- the boolean takes the waiting id away, and what is left is the writer before the field
      show putFieldHeader id (WireType.boolCode b) { w with pendingBool := none } = _
      rw [← hp]
      exact putFieldHeader_eq id _ hl
    | _ => cases hb
  · have hbegin : fieldBegin ⟨id, v.type⟩ w = .ok () (w.addFields (fieldHead last id v.type.code) id) := by
      rw [fieldBegin_eq v.type_ne_stop hb hp, putFieldHeader_eq id _ hl]
    rw [bind_of_ok hbegin, hv (w.addFields _ id) hp, add_addFields, Value.canonicalMember_of_ne hb]

theorem fields_eq {last : Int16} {fs : Record} (hv : ∀ f ∈ fs, Writes (value f.2) f.2.canonical)
    (hp : w.pendingBool = none) (hl : w.lastId = last) :
    fields fs w = .ok () (w.addFields (Value.canonicalFields last fs) (Record.lastId last fs)) := by
  induction fs generalizing last w with
  | nil =>
    rw [← hl]
    exact Writes.checked (Writes.put [0]) w hp
  | cons f fs ih =>
    obtain ⟨id, v⟩ := f
    rw [List.forall_mem_cons] at hv
    have hbehind : (w.addFields (Value.canonicalMember last id v) id).pendingBool = none := hp
    show (do fieldBegin ⟨id, v.type⟩; value v; fields fs) w = _
    rw [← bind_assoc, bind_of_ok (member_eq id hv.1 hp hl), ih hv.2 hbehind (lastId_addFields _ id),
      addFields_addFields, ← Value.canonicalFields_cons]
    rfl

/-! ### Values -/

theorem encodable_list {element : WireType} {vs : List Value} :
    Encodable (.list element vs) ↔ (Value.list element vs).Writable ∧ ∀ v ∈ vs, Encodable v :=
  List.forall_mem_cons.trans (and_congr Iff.rfl Value.forall_mem_itemParts)

theorem encodable_set {element : WireType} {vs : List Value} :
    Encodable (.set element vs) ↔ (Value.set element vs).Writable ∧ ∀ v ∈ vs, Encodable v :=
  List.forall_mem_cons.trans (and_congr Iff.rfl Value.forall_mem_itemParts)

theorem encodable_map {key val : Option WireType} {es : List (Value × Value)} : Encodable (.map key val es) ↔
    (Value.map key val es).Writable ∧ ∀ e ∈ es, Encodable e.1 ∧ Encodable e.2 :=
  List.forall_mem_cons.trans (and_congr Iff.rfl Value.forall_mem_entryParts)

theorem encodable_struct {fs : Record} : Encodable (.struct fs) ↔ ∀ f ∈ fs, Encodable f.2 :=
  List.forall_mem_cons.trans ((and_iff_right ⟨trivial, zero_lt_size, zero_lt_size⟩).trans Value.forall_mem_fieldParts)

theorem writes_map {key val : Option WireType} {es : List (Value × Value)} (hw : (Value.map key val es).Writable)
    (hv : ∀ e ∈ es, Writes (value e.1) e.1.canonical ∧ Writes (value e.2) e.2.canonical) :
    Writes (value (.map key val es)) (Value.map key val es).canonical := by
  obtain ⟨ht, -, hsize⟩ := hw
  have hentries := writes_entries ht hv
  cases es with
  | nil => exact (writes_emptyMap key val).bind hentries
  | cons e es =>
    obtain ⟨rfl, rfl⟩ := ht e List.mem_cons_self
    exact (writes_mapBegin (Nat.succ_ne_zero _) hsize).bind hentries

theorem structEnd_eq {w : Writer} {id : Int16} {parents : List Int16} (hp : w.pendingBool = none)
    (hw : w.parents = id :: parents) : structEnd w = .ok () { w with parents, lastId := id } := by
  refine (bind_of_ok (checkPending_eq hp)).trans ((bind_of_ok (x := get) (a := w) rfl).trans ?_)
  rw [hw]
  rfl

theorem writes_struct {fs : Record} (hv : ∀ f ∈ fs, Writes (value f.2) f.2.canonical) :
    Writes (value (.struct fs)) (Value.canonicalFields 0 fs) := by
  intro w hp
  have hfields := fields_eq (w := { w with parents := w.lastId :: w.parents, lastId := 0 }) hv hp rfl
  refine (bind_of_ok (x := structBegin) rfl).trans ((bind_of_ok hfields).trans ?_)
  exact structEnd_eq (w := addFields _ _ _) hp rfl

theorem writes_value {v : Value} (h : Encodable v) : Writes (value v) v.canonical := by
  induction v with
  | bool b =>
    intro w hp
    refine (bind_of_ok (x := get) (a := w) rfl).trans ?_
    rw [hp]
    rfl
  | byte _ | i16 _ | i32 _ | i64 _ | double _ => exact Writes.put _
  | binary bytes => exact writes_binary (h _ (Value.self_mem_parts _)).2.1
  | list element vs ih =>
    obtain ⟨⟨ht, -, hsize⟩, hvs⟩ := encodable_list.1 h
    exact (writes_collectionBegin hsize).bind (writes_items ht fun v hv => ih v hv (hvs v hv))
  | set element vs ih =>
    obtain ⟨⟨ht, -, hsize⟩, hvs⟩ := encodable_set.1 h
    exact (writes_collectionBegin hsize).bind (writes_items ht fun v hv => ih v hv (hvs v hv))
  | map key val es ih =>
    obtain ⟨hself, hes⟩ := encodable_map.1 h
    exact writes_map hself fun e he => ⟨(ih e he).1 (hes e he).1, (ih e he).2 (hes e he).2⟩
  | struct fs ih => exact writes_struct fun f hf => ih f hf (encodable_struct.1 h f hf)

/-! ### No other values -/

theorem eq_of_checkType {declared : Option WireType} {v : Value} {w w' : Writer}
    (h : checkType declared v w = .ok () w') : declared = some v.type ∧ w' = w := by
  unfold checkType at h
  by_cases ht : declared = some v.type
  · rw [if_neg (by simpa using ht)] at h
    cases h
    exact ⟨ht, rfl⟩
  · rw [if_pos (by simpa using ht)] at h
    cases h

/-- A value that is only written in full if it can be. -/
def OnlyEncodable (v : Value) : Prop :=
  ∀ w w', w.pendingBool = none → value v w = .ok () w' → Encodable v ∧ w'.pendingBool = none

theorem pendingBool_of_value {v : Value} {w w' : Writer} (hv : Encodable v) (hp : w.pendingBool = none)
    (h : value v w = .ok () w') : w'.pendingBool = none :=
  (writes_value hv).pendingBool hp h

theorem onlyEncodable_of {v : Value} (h : ∀ w w', w.pendingBool = none → value v w = .ok () w' → Encodable v) :
    OnlyEncodable v := fun w w' hp hw => ⟨h w w' hp hw, pendingBool_of_value (h w w' hp hw) hp hw⟩

theorem encodable_of_items {element : WireType} : ∀ {vs : List Value}, (∀ v ∈ vs, OnlyEncodable v) → ∀ {w w' : Writer},
    w.pendingBool = none → items element vs w = .ok () w' → ∀ v ∈ vs, v.type = element ∧ Encodable v
  | [], _, _, _, _, _ => List.forall_mem_nil _
  | v :: vs, hv, w, w', hp, h => by
    rw [List.forall_mem_cons] at hv
    obtain ⟨_, _, hcheck, h₁⟩ := bind_eq_ok.1 h
    obtain ⟨ht, rfl⟩ := eq_of_checkType hcheck
    obtain ⟨_, w₁, hval, h₂⟩ := bind_eq_ok.1 h₁
    obtain ⟨henc, hp₁⟩ := hv.1 _ w₁ hp hval
    exact List.forall_mem_cons.2 ⟨⟨(Option.some.inj ht).symm, henc⟩, encodable_of_items hv.2 hp₁ h₂⟩

theorem encodable_of_collection {element : WireType} {vs : List Value} {w w' : Writer} (hv : ∀ v ∈ vs, OnlyEncodable v)
    (hp : w.pendingBool = none) (h : (do collectionBegin ⟨element, vs.length⟩; items element vs) w = .ok () w') :
    vs.length < UInt32.size ∧ ∀ v ∈ vs, v.type = element ∧ Encodable v := by
  obtain ⟨_, w₁, hbegin, hitems⟩ := bind_eq_ok.1 h
  have hsize := size_lt_of_collectionBegin hbegin
  exact ⟨hsize, encodable_of_items hv ((writes_collectionBegin hsize).pendingBool hp hbegin) hitems⟩

theorem encodable_of_entries {key val : Option WireType} : ∀ {es : List (Value × Value)},
    (∀ e ∈ es, OnlyEncodable e.1 ∧ OnlyEncodable e.2) → ∀ {w w' : Writer}, w.pendingBool = none →
    entries key val es w = .ok () w' →
    ∀ e ∈ es, (key = some e.1.type ∧ val = some e.2.type) ∧ Encodable e.1 ∧ Encodable e.2
  | [], _, _, _, _, _ => List.forall_mem_nil _
  | (k, v) :: es, hv, w, w', hp, h => by
    rw [List.forall_mem_cons] at hv
    obtain ⟨_, _, hkeyType, h₁⟩ := bind_eq_ok.1 h
    obtain ⟨hk, rfl⟩ := eq_of_checkType hkeyType
    obtain ⟨_, _, hvalType, h₂⟩ := bind_eq_ok.1 h₁
    obtain ⟨ht, rfl⟩ := eq_of_checkType hvalType
    obtain ⟨_, w₁, hkey, h₃⟩ := bind_eq_ok.1 h₂
    obtain ⟨henck, hp₁⟩ := hv.1.1 _ w₁ hp hkey
    obtain ⟨_, w₂, hval, h₄⟩ := bind_eq_ok.1 h₃
    obtain ⟨hencv, hp₂⟩ := hv.1.2 _ w₂ hp₁ hval
    exact List.forall_mem_cons.2 ⟨⟨⟨hk, ht⟩, henck, hencv⟩, encodable_of_entries hv.2 hp₂ h₄⟩

/-- One field: its value can be written, and its boolean does not wait any longer. -/
theorem encodable_of_member {id : Int16} {v : Value} {w w' : Writer} (hv : OnlyEncodable v)
    (hp : w.pendingBool = none) (h : (do fieldBegin ⟨id, v.type⟩; value v) w = .ok () w') :
    Encodable v ∧ w'.pendingBool = none := by
  have henc : Encodable v := by
    obtain ⟨_, w₁, hbegin, hval⟩ := bind_eq_ok.1 h
    by_cases hb : v.type = .bool
    · cases v with
      | bool b => exact List.forall_mem_singleton.2 ⟨trivial, zero_lt_size, zero_lt_size⟩
      | _ => cases hb
    · rw [fieldBegin_eq v.type_ne_stop hb hp, putFieldHeader_eq id _ rfl] at hbegin
      cases hbegin
      exact (hv (w.addFields _ id) w' hp hval).1
  rw [member_eq id (writes_value henc) hp rfl] at h
  cases h
  exact ⟨henc, hp⟩

theorem encodable_of_fields : ∀ {fs : Record}, (∀ f ∈ fs, OnlyEncodable f.2) → ∀ {w w' : Writer},
    w.pendingBool = none → fields fs w = .ok () w' → ∀ f ∈ fs, Encodable f.2
  | [], _, _, _, _, _ => List.forall_mem_nil _
  | (id, v) :: fs, hv, w, w', hp, h => by
    rw [List.forall_mem_cons] at hv
    obtain ⟨_, w₁, hbegin, h⟩ := bind_eq_ok.1 h
    obtain ⟨_, w₂, hval, h⟩ := bind_eq_ok.1 h
    obtain ⟨henc, hp₂⟩ := encodable_of_member hv.1 hp (bind_eq_ok.2 ⟨_, w₁, hbegin, hval⟩)
    exact List.forall_mem_cons.2 ⟨henc, encodable_of_fields hv.2 hp₂ h⟩

theorem onlyEncodable (v : Value) : OnlyEncodable v := by
  induction v with
  | binary bytes =>
    refine onlyEncodable_of fun w w' _ h => ?_
    exact List.forall_mem_singleton.2 ⟨trivial, size_lt_of_binary h, zero_lt_size⟩
  | list element vs ih =>
    refine onlyEncodable_of fun w w' hp h => ?_
    obtain ⟨hsize, hvs⟩ := encodable_of_collection ih hp h
    exact encodable_list.2 ⟨⟨fun v hv => (hvs v hv).1, zero_lt_size, hsize⟩, fun v hv => (hvs v hv).2⟩
  | set element vs ih =>
    refine onlyEncodable_of fun w w' hp h => ?_
    obtain ⟨hsize, hvs⟩ := encodable_of_collection ih hp h
    exact encodable_set.2 ⟨⟨fun v hv => (hvs v hv).1, zero_lt_size, hsize⟩, fun v hv => (hvs v hv).2⟩
  | map key val es ih =>
    refine onlyEncodable_of fun w w' hp h => ?_
    obtain ⟨_, w₁, hbegin, h⟩ := bind_eq_ok.1 h
    have hsize := size_lt_of_mapBegin hbegin
    have hes := encodable_of_entries ih (pendingBool_of_mapBegin hp hbegin) h
    exact encodable_map.2 ⟨⟨fun e he => (hes e he).1, zero_lt_size, hsize⟩, fun e he => (hes e he).2⟩
  | struct fs ih =>
    refine onlyEncodable_of fun w w' hp h => ?_
    obtain ⟨_, w₁, hbegin, h⟩ := bind_eq_ok.1 h
    cases hbegin
    obtain ⟨_, w₂, hfields, h⟩ := bind_eq_ok.1 h
    let inner : Writer := { w with parents := w.lastId :: w.parents, lastId := 0 }
    exact encodable_struct.2 (encodable_of_fields ih (w := inner) hp hfields)
  | _ => exact onlyEncodable_of fun _ _ _ _ => List.forall_mem_singleton.2 ⟨trivial, zero_lt_size, zero_lt_size⟩

end Writer

/-! ### Records -/

namespace Record

variable {r : Record} {b : Bytes}

theorem writes_record (h : ∀ p ∈ r.parts, p.Writable) : Writer.Writes (Writer.record r) r.canonical :=
  Writer.writes_struct fun f hf => Writer.writes_value (Value.forall_mem_fieldParts.1 h f hf)

theorem encode_of_writable (h : ∀ p ∈ r.parts, p.Writable) : r.encode = .ok r.canonical := by
  unfold encode
  rw [writes_record h {} rfl]
  simp [Writer.add]

theorem writable_of_encode (h : r.encode = .ok b) : ∀ p ∈ r.parts, p.Writable := by
  unfold encode at h
  split at h
  · rename_i hw
    exact Value.forall_mem_fieldParts.2 (Writer.encodable_struct.1 (Writer.onlyEncodable _ _ _ rfl hw).1)
  · cases h

/-- A record has an encoding exactly if all its parts can be written, and it is the canonical one. -/
theorem encode_eq_ok : r.encode = .ok b ↔ (∀ p ∈ r.parts, p.Writable) ∧ r.canonical = b := by
  refine ⟨fun h => ?_, ?_⟩
  · have hw := writable_of_encode h
    exact ⟨hw, Except.ok.inj ((encode_of_writable hw).symm.trans h)⟩
  · rintro ⟨hw, rfl⟩
    exact encode_of_writable hw

theorem exists_encode_iff : (∃ b, r.encode = .ok b) ↔ ∀ p ∈ r.parts, p.Writable :=
  ⟨fun ⟨_, h⟩ => writable_of_encode h, fun h => ⟨_, encode_of_writable h⟩⟩

/-- An encoding is what any writer writes. -/
theorem writes_of_encode (h : r.encode = .ok b) : Writer.Writes (Writer.record r) b := by
  obtain ⟨hw, rfl⟩ := encode_eq_ok.1 h
  exact writes_record hw

/-- An encoding is a way to write the normal form, under all limits that allow the parts. -/
theorem written_of_encode (h : r.encode = .ok b) {limits : Option Limits} (ha : ∀ p ∈ r.parts, p.Allowed limits) :
    Phrase.Written limits (.fields 0 r.normal) b := by
  obtain ⟨hw, rfl⟩ := encode_eq_ok.1 h
  exact (straight_canonical fun p hp => ⟨hw p hp, ha p hp⟩).written

/-- A record whose parts can be written has an encoding, and this is a way to write its normal form. -/
theorem exists_encode (h : ∀ p ∈ r.parts, p.Writable) : ∃ b, r.encode = .ok b ∧
    ∀ limits, (∀ p ∈ r.parts, p.Allowed limits) → Phrase.Written limits (.fields 0 r.normal) b :=
  ⟨_, encode_of_writable h, fun _ ha => written_of_encode (encode_of_writable h) ha⟩

end Record

end CompactWire

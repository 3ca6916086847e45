import Mathlib
import CompactWire.Proofs.WriteGrammar

/-!
# CompactWire.Proofs.Refusals — what encoding refuses, and why

A record that has no encoding is refused for one of its parts, and the error tells what is wrong with the part
(`Record.refused_of_encode`): an element has not the declared type, a map with entries lacks a type, or a size has more
than 32 bits.  Misuse of the session is not among the reasons.  This is so because a header of a boolean field is
followed by its boolean at once, at whatever depth: from any session in which no boolean field waits, a value is refused
for its parts only (`Writer.RefusedOnly`), and the values after the first are written from such a session again.

The induction is on the value, with a lemma for each of the loops over items, entries and fields.
-/

namespace CompactWire

open Outcome

/-- The errors with which a value is refused for itself, not for what is inside its elements. -/
inductive Value.Refused : Value → Error → Prop
  /-- An element has another type than the declared one. -/
  | mistyped {v : Value} {found : WireType} {declared : Option WireType} (typing : ¬v.Typed)
    (differ : declared ≠ some found) : Refused v (.invalidData (.mistypedElement found declared))
  /-- A map with entries declares no type for its keys or for its values. -/
  | untyped {v : Value} (typing : ¬v.Typed) : Refused v (.invalidData .untypedMap)
  /-- The length of a binary is no number of 32 bits. -/
  | tooLong {v : Value} (length : UInt32.size ≤ v.byteLength) :
    Refused v (.lengthExceeded v.byteLength (UInt32.size - 1))
  /-- The size of a container is no number of 32 bits. -/
  | tooMany {v : Value} (size : UInt32.size ≤ v.elementCount) :
    Refused v (.lengthExceeded v.elementCount (UInt32.size - 1))

namespace Writer

variable {w w' : Writer} {e : Error}

/-! ### Calls that fail -/

theorem of_checkType_error {declared : Option WireType} {v : Value} (h : checkType declared v w = .error e w') :
    declared ≠ some v.type ∧ e = .invalidData (.mistypedElement v.type declared) := by
  unfold checkType at h
  by_cases ht : declared = some v.type
  · rw [if_neg (not_not_intro ht)] at h
    cases h
  · rw [if_pos ht] at h
    cases h
    exact ⟨ht, rfl⟩

theorem of_putSize_error {size : Nat} (h : putSize size w = .error e w') :
    UInt32.size ≤ size ∧ e = .lengthExceeded size (UInt32.size - 1) := by
  unfold putSize at h
  by_cases hsize : UInt32.size ≤ size
  · rw [if_pos hsize] at h
    cases h
    exact ⟨hsize, rfl⟩
  · rw [if_neg hsize] at h
    cases h

theorem of_binary_error {bytes : Bytes} (h : binary bytes w = .error e w') :
    UInt32.size ≤ bytes.length ∧ e = .lengthExceeded bytes.length (UInt32.size - 1) := by
  rcases bind_eq_error.1 h with hsize | ⟨_, _, _, hput⟩
  · exact of_putSize_error hsize
  · cases hput

theorem of_collectionBegin_error {header : CollectionHeader} (hp : w.pendingBool = none)
    (h : collectionBegin header w = .error e w') :
    UInt32.size ≤ header.size ∧ e = .lengthExceeded header.size (UInt32.size - 1) := by
  unfold collectionBegin at h
  rw [bind_of_ok (checkPending_eq hp)] at h
  split at h
  · cases h
  · rcases bind_eq_error.1 h with hput | ⟨_, _, _, hsize⟩
    · cases hput
    · exact of_putSize_error hsize

theorem of_mapBegin_error {key val : Option WireType} {size : Nat} (hp : w.pendingBool = none)
    (h : mapBegin ⟨key, val, size⟩ w = .error e w') : size ≠ 0 ∧
      ((key = none ∨ val = none) ∧ e = .invalidData .untypedMap ∨
        UInt32.size ≤ size ∧ e = .lengthExceeded size (UInt32.size - 1)) := by
  unfold mapBegin at h
  rw [bind_of_ok (checkPending_eq hp)] at h
  by_cases h0 : size = 0
  · rw [if_pos h0] at h
    cases h
  · rw [if_neg h0] at h
    refine ⟨h0, ?_⟩
    cases key with
    | none =>
      cases h
      exact Or.inl ⟨Or.inl rfl, rfl⟩
    | some key => cases val with
      | none =>
        cases h
        exact Or.inl ⟨Or.inr rfl, rfl⟩
      | some val =>
        rcases bind_eq_error.1 h with hsize | ⟨_, _, _, hput⟩
        · exact Or.inr (of_putSize_error hsize)
        · cases hput

/-- A field header is written or waits, where no other waits. -/
theorem exists_fieldBegin (id : Int16) {type : WireType} (hs : type ≠ .stop) (hp : w.pendingBool = none) :
    ∃ w', fieldBegin ⟨id, type⟩ w = .ok () w' ∧
      w'.pendingBool = if type = .bool then some id else none := by
  by_cases hb : type = .bool
  · subst hb
    exact ⟨{ w with pendingBool := some id }, bind_of_ok (checkPending_eq hp), rfl⟩
  · refine ⟨w.addFields _ id, (fieldBegin_eq hs hb hp).trans (putFieldHeader_eq id _ rfl), ?_⟩
    rw [if_neg hb]
    exact hp

/-- A boolean is written, whether its header waits or not. -/
theorem bool_ne_error (b : Bool) : bool b w ≠ .error e w' := by
  unfold bool
  intro h
  rcases bind_eq_error.1 h with hget | ⟨_, _, hget, h⟩
  · cases hget
  · cases hget
    cases hp : w.pendingBool with
    | none =>
      rw [hp] at h
      cases h
    | some id =>
      rw [hp] at h
      have hwritten := putFieldHeader_eq (w := { w with pendingBool := none }) id (WireType.boolCode b) rfl
      rcases bind_eq_error.1 h with hset | ⟨_, _, hset, h⟩
      · cases hset
      · cases hset
        rw [hwritten] at h
        cases h

/-! ### Elements, entries and fields -/

/-- From a session in which no boolean field waits the value is refused for one of its parts, if at all. -/
def RefusedOnly (v : Value) : Prop :=
  ∀ w w' e, w.pendingBool = none → value v w = .error e w' → ∃ p ∈ v.parts, p.Refused e

theorem refused_of_items {element : WireType} : ∀ {vs : List Value}, (∀ v ∈ vs, RefusedOnly v) →
    ∀ {w w' : Writer}, w.pendingBool = none → items element vs w = .error e w' →
      (∃ v ∈ vs, v.type ≠ element ∧ e = .invalidData (.mistypedElement v.type (some element))) ∨
        ∃ p ∈ Value.itemParts vs, p.Refused e
  | [], _, _, _, _, h => by cases h
  | v :: vs, hv, w, w', hp, h => by
    rw [List.forall_mem_cons] at hv
    rcases bind_eq_error.1 h with hcheck | ⟨_, _, hcheck, h₁⟩
    · obtain ⟨hne, rfl⟩ := of_checkType_error hcheck
      exact Or.inl ⟨v, List.mem_cons_self, fun ht => hne (by rw [ht]), rfl⟩
    obtain ⟨-, rfl⟩ := eq_of_checkType hcheck
    rcases bind_eq_error.1 h₁ with hval | ⟨_, w₁, hval, hothers⟩
    · obtain ⟨p, hpart, hrefused⟩ := hv.1 _ _ _ hp hval
      exact Or.inr ⟨p, List.mem_append_left _ hpart, hrefused⟩
    have hp₁ : w₁.pendingBool = none := (onlyEncodable v _ _ hp hval).2
    rcases refused_of_items hv.2 hp₁ hothers with ⟨u, hu, hmistyped⟩ | ⟨p, hpart, hrefused⟩
    · exact Or.inl ⟨u, List.mem_cons_of_mem v hu, hmistyped⟩
    · exact Or.inr ⟨p, List.mem_append_right _ hpart, hrefused⟩

theorem refused_of_entries {key val : Option WireType} : ∀ {es : List (Value × Value)},
    (∀ en ∈ es, RefusedOnly en.1 ∧ RefusedOnly en.2) → ∀ {w w' : Writer}, w.pendingBool = none →
      entries key val es w = .error e w' →
      (∃ en ∈ es, ¬(key = some en.1.type ∧ val = some en.2.type) ∧
        ∃ found declared, declared ≠ some found ∧ e = .invalidData (.mistypedElement found declared)) ∨
        ∃ p ∈ Value.entryParts es, p.Refused e
  | [], _, _, _, _, h => by cases h
  | (k, v) :: es, hv, w, w', hp, h => by
    rw [List.forall_mem_cons] at hv
    obtain ⟨⟨hk, hval⟩, hothers⟩ := hv
    rcases bind_eq_error.1 h with hkeyType | ⟨_, _, hkeyType, h₁⟩
    · obtain ⟨hne, rfl⟩ := of_checkType_error hkeyType
      exact Or.inl ⟨(k, v), List.mem_cons_self, fun ht => hne ht.1, _, _, hne, rfl⟩
    obtain ⟨-, rfl⟩ := eq_of_checkType hkeyType
    rcases bind_eq_error.1 h₁ with hvalType | ⟨_, _, hvalType, h₂⟩
    · obtain ⟨hne, rfl⟩ := of_checkType_error hvalType
      exact Or.inl ⟨(k, v), List.mem_cons_self, fun ht => hne ht.2, _, _, hne, rfl⟩
    obtain ⟨-, rfl⟩ := eq_of_checkType hvalType
    rcases bind_eq_error.1 h₂ with hkey | ⟨_, w₁, hkey, h₃⟩
    · obtain ⟨p, hpart, hrefused⟩ := hk _ _ _ hp hkey
      exact Or.inr ⟨p, List.mem_append_left _ (List.mem_append_left _ hpart), hrefused⟩
    have hp₁ : w₁.pendingBool = none := (onlyEncodable k _ _ hp hkey).2
    rcases bind_eq_error.1 h₃ with hvalue | ⟨_, w₂, hvalue, h₄⟩
    · obtain ⟨p, hpart, hrefused⟩ := hval _ _ _ hp₁ hvalue
      exact Or.inr ⟨p, List.mem_append_left _ (List.mem_append_right _ hpart), hrefused⟩
    have hp₂ : w₂.pendingBool = none := (onlyEncodable v _ _ hp₁ hvalue).2
    rcases refused_of_entries hothers hp₂ h₄ with ⟨en, hen, hmistyped⟩ | ⟨p, hpart, hrefused⟩
    · exact Or.inl ⟨en, List.mem_cons_of_mem _ hen, hmistyped⟩
    · exact Or.inr ⟨p, List.mem_append_right _ hpart, hrefused⟩

/-- The value of a field is refused for one of its parts; a boolean goes into its header and is never refused. -/
theorem refused_of_member {id : Int16} {v : Value} (hv : RefusedOnly v) (hp : w.pendingBool = none)
    (h : (do fieldBegin ⟨id, v.type⟩; value v) w = .error e w') : ∃ p ∈ v.parts, p.Refused e := by
  obtain ⟨w₁, hbegin, hp₁⟩ := exists_fieldBegin id v.type_ne_stop hp
  rw [bind_of_ok hbegin] at h
  by_cases hb : v.type = .bool
  · cases v with
    | bool b => exact absurd h (bool_ne_error b)
    | _ => cases hb
  · rw [if_neg hb] at hp₁
    exact hv w₁ w' e hp₁ h

theorem refused_of_fields : ∀ {fs : Record}, (∀ f ∈ fs, RefusedOnly f.2) → ∀ {w w' : Writer},
    w.pendingBool = none → fields fs w = .error e w' → ∃ p ∈ Value.fieldParts fs, p.Refused e
  | [], _, w, w', hp, h => by
    have hstop : fieldStop w = .ok () (w.add [0]) := Writes.checked (Writes.put [0]) w hp
    cases hstop.symm.trans h
  | (id, v) :: fs, hv, w, w', hp, h => by
    rw [List.forall_mem_cons] at hv
    have hsplit : ((do fieldBegin ⟨id, v.type⟩; value v) >>= fun _ => fields fs) w = .error e w' := by
      rw [bind_assoc]
      exact h
    rcases bind_eq_error.1 hsplit with hmember | ⟨_, w₂, hmember, hothers⟩
    · obtain ⟨p, hpart, hrefused⟩ := refused_of_member hv.1 hp hmember
      exact ⟨p, List.mem_append_left _ hpart, hrefused⟩
    · have hp₂ : w₂.pendingBool = none := (encodable_of_member (onlyEncodable v) hp hmember).2
      obtain ⟨p, hpart, hrefused⟩ := refused_of_fields hv.2 hp₂ hothers
      exact ⟨p, List.mem_append_right _ hpart, hrefused⟩

/-! ### Values -/

/-- A list or set is refused for its elements or for its size, or one of its elements is refused. -/
theorem refused_of_collection {v : Value} {element : WireType} {vs : List Value}
    (hparts : v.parts = v :: Value.itemParts vs) (htyped : v.Typed → ∀ u ∈ vs, u.type = element)
    (hcount : v.elementCount = vs.length) (hvs : ∀ u ∈ vs, RefusedOnly u) (hp : w.pendingBool = none)
    (h : (do collectionBegin ⟨element, vs.length⟩; items element vs) w = .error e w') : ∃ p ∈ v.parts, p.Refused e := by
  rw [hparts]
  rcases bind_eq_error.1 h with hbegin | ⟨_, w₁, hbegin, hitems⟩
  · obtain ⟨hsize, rfl⟩ := of_collectionBegin_error hp hbegin
    have hmany : UInt32.size ≤ v.elementCount := hcount ▸ hsize
    have hrefused := Value.Refused.tooMany hmany
    rw [hcount] at hrefused
    exact ⟨v, List.mem_cons_self, hrefused⟩
  have hp₁ : w₁.pendingBool = none :=
    (writes_collectionBegin (size_lt_of_collectionBegin hbegin)).pendingBool hp hbegin
  rcases refused_of_items hvs hp₁ hitems with ⟨u, hu, hne, rfl⟩ | ⟨p, hpart, hrefused⟩
  · refine ⟨v, List.mem_cons_self, .mistyped (fun ht => hne (htyped ht u hu)) ?_⟩
    exact fun hsame => hne (Option.some.inj hsame).symm
  · exact ⟨p, List.mem_cons_of_mem v hpart, hrefused⟩

theorem refused_of_map {key val : Option WireType} {es : List (Value × Value)}
    (hes : ∀ en ∈ es, RefusedOnly en.1 ∧ RefusedOnly en.2) : RefusedOnly (.map key val es) := by
  intro w w' e hp h
  rcases bind_eq_error.1 h with hbegin | ⟨_, w₁, hbegin, hentries⟩
  · obtain ⟨hne, ⟨huntyped, rfl⟩ | ⟨hsize, rfl⟩⟩ := of_mapBegin_error hp hbegin
    · refine ⟨_, Value.self_mem_parts _, .untyped fun ht => ?_⟩
      obtain ⟨en, hen⟩ := List.exists_mem_of_length_pos (Nat.pos_of_ne_zero hne)
      obtain ⟨hkey, hval⟩ := ht en hen
      rcases huntyped with hnone | hnone
      · cases hnone.symm.trans hkey
      · cases hnone.symm.trans hval
    · exact ⟨_, Value.self_mem_parts _, Value.Refused.tooMany (v := .map key val es) hsize⟩
  have hp₁ : w₁.pendingBool = none := pendingBool_of_mapBegin hp hbegin
  rcases refused_of_entries hes hp₁ hentries with ⟨en, hen, hne, found, declared, hdiffer, rfl⟩ | ⟨p, hpart, hrefused⟩
  · exact ⟨_, Value.self_mem_parts _, .mistyped (fun ht => hne (ht en hen)) hdiffer⟩
  · exact ⟨p, List.mem_cons_of_mem _ hpart, hrefused⟩

theorem refused_of_struct {fs : Record} (hfs : ∀ f ∈ fs, RefusedOnly f.2) : RefusedOnly (.struct fs) := by
  intro w w' e hp h
  let inner : Writer := { w with parents := w.lastId :: w.parents, lastId := 0 }
  rcases bind_eq_error.1 h with hbegin | ⟨_, _, hbegin, h₁⟩
  · cases hbegin
  cases hbegin
  rcases bind_eq_error.1 h₁ with hfields | ⟨_, w₂, hfields, hend⟩
  · obtain ⟨p, hpart, hrefused⟩ := refused_of_fields hfs (w := inner) hp hfields
    exact ⟨p, List.mem_cons_of_mem _ hpart, hrefused⟩
  -- behind the fields no boolean waits, and the struct that was opened is there to be closed
  have hwrites : ∀ f ∈ fs, Writes (value f.2) f.2.canonical := fun f hf =>
    writes_value (encodable_of_fields (fun f _ => onlyEncodable f.2) (w := inner) hp hfields f hf)
  cases (fields_eq (w := inner) hwrites hp rfl).symm.trans hfields
  let behind : Writer := inner.addFields (Value.canonicalFields 0 fs) (Record.lastId 0 fs)
  have hclosed : structEnd behind = .ok () { behind with parents := w.parents, lastId := w.lastId } :=
    structEnd_eq hp rfl
  cases hclosed.symm.trans hend

theorem refusedOnly (v : Value) : RefusedOnly v := by
  induction v with
  | bool b => exact fun w w' e _ h => absurd h (bool_ne_error b)
  | byte _ | i16 _ | i32 _ | i64 _ | double _ => exact fun w w' e _ h => by cases h
  | binary bytes =>
    intro w w' e _ h
    obtain ⟨hlength, rfl⟩ := of_binary_error h
    exact ⟨_, Value.self_mem_parts _, Value.Refused.tooLong (v := .binary bytes) hlength⟩
  | list element vs ih => exact fun w w' e hp h => refused_of_collection (v := .list element vs) rfl id rfl ih hp h
  | set element vs ih => exact fun w w' e hp h => refused_of_collection (v := .set element vs) rfl id rfl ih hp h
  | map key val es ih => exact refused_of_map ih
  | struct fs ih => exact refused_of_struct ih

end Writer

namespace Record

variable {r : Record}

/-- A record without an encoding is refused for one of its parts. -/
theorem refused_of_encode {e : Error} (h : r.encode = .error e) : ∃ p ∈ r.parts, p.Refused e := by
  unfold encode at h
  cases hw : Writer.record r {} with
  | ok _ w =>
    rw [hw] at h
    cases h
  | error e' w =>
    rw [hw] at h
    cases h
    obtain ⟨p, hpart, hrefused⟩ := Writer.refusedOnly (.struct r) {} w e rfl hw
    rcases List.mem_cons.1 hpart with rfl | hpart
    · -- the record itself declares nothing and has no size of its own
      cases hrefused with
      | mistyped typing _ | untyped typing => exact absurd trivial typing
      | tooLong size | tooMany size => exact absurd zero_lt_size (Nat.not_lt.2 size)
    · exact ⟨p, hpart, hrefused⟩

/-- **Encoding refuses mistyped elements and nothing else**: if no binary and no container is longer than a number of
32 bits can tell, a record has an encoding exactly if at every depth the elements have the types declared for them;
otherwise its data is invalid, which is said of a part whose elements have not.  The session is never misused. -/
theorem encode_ok_iff_typed (r : Record)
    (hsizes : ∀ p ∈ r.parts, p.byteLength < UInt32.size ∧ p.elementCount < UInt32.size) :
    ((∃ b, r.encode = .ok b) ↔ ∀ p ∈ r.parts, p.Typed) ∧
    ((¬∀ p ∈ r.parts, p.Typed) → ∃ fault, r.encode = .error (.invalidData fault)) ∧
    ∀ e, r.encode = .error e → (∃ p ∈ r.parts, ¬p.Typed ∧ p.Refused e) ∧
      (∀ id, e ≠ .pendingBool id) ∧ e ≠ .structUnderflow ∧ ∀ type, e ≠ .invalidFieldType type := by
  have haccepts : (∃ b, r.encode = .ok b) ↔ ∀ p ∈ r.parts, p.Typed := by
    rw [exists_encode_iff]
    exact ⟨fun h p hp => (h p hp).1, fun h p hp => ⟨h p hp, hsizes p hp⟩⟩
  have hinvalid : ∀ e, r.encode = .error e →
      ∃ fault, e = .invalidData fault ∧ ∃ p ∈ r.parts, ¬p.Typed ∧ p.Refused e := by
    intro e he
    obtain ⟨p, hp, hrefused⟩ := refused_of_encode he
    obtain ⟨hbytes, helements⟩ := hsizes p hp
    cases hrefused with
    | mistyped typing differ => exact ⟨_, rfl, p, hp, typing, .mistyped typing differ⟩
    | untyped typing => exact ⟨_, rfl, p, hp, typing, .untyped typing⟩
    | tooLong size => exact absurd hbytes (Nat.not_lt.2 size)
    | tooMany size => exact absurd helements (Nat.not_lt.2 size)
  refine ⟨haccepts, fun hmistyped => ?_, fun e he => ?_⟩
  · cases hencode : r.encode with
    | ok b => exact absurd (haccepts.1 ⟨b, hencode⟩) hmistyped
    | error e =>
      obtain ⟨fault, rfl, -⟩ := hinvalid e hencode
      exact ⟨fault, rfl⟩
  · obtain ⟨fault, rfl, hpart⟩ := hinvalid e he
    exact ⟨hpart, fun id => by simp, by simp, fun type => by simp⟩

/-- Empty containers that declare anything are encoded; a number in a set of bytes, behind a boolean field in a struct
in a list, is refused. -/
theorem encode_ok_iff_typed_nested :
    let empties : Record := [(1, .list .stop []), (2, .map (some .i32) none []), (3, .bool true)]
    let mistyped : Record := [(1, .list .struct [.struct [(1, .bool true), (2, .set .byte [.byte 0, .i16 1])]])]
    (∀ r ∈ [empties, mistyped], ∀ p ∈ r.parts, p.byteLength < UInt32.size ∧ p.elementCount < UInt32.size) ∧
      (∃ b, empties.encode = .ok b) ∧ ∃ fault, mistyped.encode = .error (.invalidData fault) := by
  intro empties mistyped
  have hsizes : ∀ r ∈ [empties, mistyped], ∀ p ∈ r.parts,
      p.byteLength < UInt32.size ∧ p.elementCount < UInt32.size := by decide
  obtain ⟨hempties, hmistyped⟩ := List.forall_mem_cons.1 hsizes
  have hsound := (encode_ok_iff_typed empties hempties).1.2 (by decide)
  have hrefused := (encode_ok_iff_typed mistyped (List.forall_mem_singleton.1 hmistyped)).2.1 (by decide)
  exact ⟨hsizes, hsound, hrefused⟩

end Record

end CompactWire

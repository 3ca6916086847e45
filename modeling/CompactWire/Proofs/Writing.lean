import CompactWire.Proofs.Outcome
import CompactWire.Value.Canonical
import CompactWire.Writer.Value

/-!
# CompactWire.Proofs.Writing — what a writer appends

`Writes x bs` says of a call `x` of a writer: where no boolean field waits, it appends `bs` and leaves the rest of the
writer as it was.  There is a lemma for each call that does, with the canonical bytes of what is written, and for each
call that can fail one that says what holds if it does not.  `putFieldHeader_eq` is about the call that also keeps an id.
-/

namespace CompactWire.Writer

open Outcome

variable {w w' : Writer}

/-- A writer that has appended more bytes. -/
def add (bs : Bytes) (w : Writer) : Writer := { w with out := w.out ++ bs }

@[simp] theorem add_nil : w.add [] = w := by
  simp [add]

@[simp] theorem add_add (bs₁ bs₂ : Bytes) : (w.add bs₁).add bs₂ = w.add (bs₁ ++ bs₂) := by
  unfold add
  congr 1
  exact Array.ext' (by simp)

@[simp] theorem pendingBool_add (bs : Bytes) : (w.add bs).pendingBool = w.pendingBool := rfl

@[simp] theorem lastId_add (bs : Bytes) : (w.add bs).lastId = w.lastId := rfl

/-- A writer that has appended fields, the last of them with the given id. -/
def addFields (bs : Bytes) (id : Int16) (w : Writer) : Writer := { w.add bs with lastId := id }

@[simp] theorem add_addFields (bs₁ bs₂ : Bytes) (id : Int16) :
    (w.addFields bs₁ id).add bs₂ = w.addFields (bs₁ ++ bs₂) id := by
  unfold addFields
  rw [← add_add]
  rfl

@[simp] theorem addFields_addFields (bs₁ bs₂ : Bytes) (id₁ id₂ : Int16) :
    (w.addFields bs₁ id₁).addFields bs₂ id₂ = w.addFields (bs₁ ++ bs₂) id₂ := by
  unfold addFields
  rw [← add_add]
  rfl

@[simp] theorem pendingBool_addFields (bs : Bytes) (id : Int16) : (w.addFields bs id).pendingBool = w.pendingBool := rfl

@[simp] theorem lastId_addFields (bs : Bytes) (id : Int16) : (w.addFields bs id).lastId = id := rfl

/-- The call `x` appends `bs` and nothing else. -/
def Writes (x : Writing Unit) (bs : Bytes) : Prop := ∀ w, w.pendingBool = none → x w = .ok () (w.add bs)

theorem put_eq (bs : Bytes) (w : Writer) : put bs w = .ok () (w.add bs) := rfl

theorem checkPending_eq (hp : w.pendingBool = none) : checkPending w = .ok () w := by
  unfold checkPending
  refine (bind_of_ok (x := get) (a := w) rfl).trans ?_
  rw [hp]
  rfl

namespace Writes

variable {x y : Writing Unit} {bs bs₁ bs₂ : Bytes}

theorem nil : Writes (return ()) [] := fun w _ => by
  rw [add_nil]
  rfl

theorem put (bs : Bytes) : Writes (put bs) bs := fun w _ => put_eq bs w

theorem bind (hx : Writes x bs₁) (hy : Writes y bs₂) : Writes (do x; y) (bs₁ ++ bs₂) := fun w hp => by
  rw [bind_of_ok (hx w hp), hy (w.add bs₁) hp, add_add]

/-- The check for a waiting boolean field passes. -/
theorem checked (hx : Writes x bs) : Writes (do checkPending; x) bs := fun w hp => by
  rw [bind_of_ok (checkPending_eq hp), hx w hp]

/-- No boolean field waits behind it either. -/
theorem pendingBool (hx : Writes x bs) (hp : w.pendingBool = none) (h : x w = .ok () w') : w'.pendingBool = none := by
  rw [hx w hp] at h
  cases h
  exact hp

end Writes

/-! ### Sizes -/

theorem writes_putSize {size : Nat} (h : size < UInt32.size) : Writes (putSize size) (Varint.encode size) := by
  intro w _
  unfold putSize
  rw [if_neg (by omega)]
  exact put_eq _ w

theorem size_lt_of_putSize {size : Nat} (h : putSize size w = .ok () w') : size < UInt32.size := by
  unfold putSize at h
  split at h
  · cases h
  · omega

theorem writes_binary {bytes : Bytes} (h : bytes.length < UInt32.size) :
    Writes (binary bytes) (Varint.encode bytes.length ++ bytes) :=
  (writes_putSize h).bind (Writes.put bytes)

theorem size_lt_of_binary {bytes : Bytes} (h : binary bytes w = .ok () w') : bytes.length < UInt32.size := by
  obtain ⟨_, _, h, _⟩ := bind_eq_ok.1 h
  exact size_lt_of_putSize h

/-! ### Headers -/

/-- A field header: it is written behind the last field, and its id is kept. -/
theorem putFieldHeader_eq {last : Int16} (id : Int16) (code : Nat) (h : w.lastId = last) :
    putFieldHeader id code w = .ok () (w.addFields (fieldHead last id code) id) := by
  subst h
  refine (bind_of_ok (x := get) (a := w) rfl).trans ?_
  unfold fieldHead
  by_cases hs : 0 < id.toInt - w.lastId.toInt ∧ id.toInt - w.lastId.toInt ≤ 15
  · rw [if_pos hs, if_pos hs]
    rfl
  · rw [if_neg hs, if_neg hs]
    rfl

theorem fieldBegin_eq {id : Int16} {type : WireType} (hs : type ≠ .stop) (hb : type ≠ .bool)
    (hp : w.pendingBool = none) :
    fieldBegin ⟨id, type⟩ w = putFieldHeader id type.code w := by
  refine (bind_of_ok (checkPending_eq hp)).trans ?_
  cases type with
  | stop => exact absurd rfl hs
  | bool => exact absurd rfl hb
  | _ => rfl

theorem writes_collectionBegin {header : CollectionHeader} (h : header.size < UInt32.size) :
    Writes (collectionBegin header) header.canonical := by
  refine Writes.checked ?_
  unfold CollectionHeader.canonical
  by_cases hs : header.size ≤ 14
  · rw [if_pos hs, if_pos hs]
    exact Writes.put _
  · rw [if_neg hs, if_neg hs]
    exact (Writes.put _).bind (writes_putSize h)

theorem size_lt_of_collectionBegin {header : CollectionHeader} (h : collectionBegin header w = .ok () w') :
    header.size < UInt32.size := by
  obtain ⟨_, _, -, h⟩ := bind_eq_ok.1 h
  split at h
  · rename_i hs
    exact Nat.lt_of_le_of_lt hs (by decide)
  · obtain ⟨_, _, -, h⟩ := bind_eq_ok.1 h
    exact size_lt_of_putSize h

theorem writes_emptyMap (key val : Option WireType) :
    Writes (mapBegin ⟨key, val, 0⟩) (MapHeader.canonical ⟨key, val, 0⟩) :=
  Writes.checked (Writes.put [0])

theorem writes_mapBegin {key val : WireType} {size : Nat} (h0 : size ≠ 0) (h : size < UInt32.size) :
    Writes (mapBegin ⟨some key, some val, size⟩) (MapHeader.canonical ⟨some key, some val, size⟩) := by
  refine Writes.checked ?_
  unfold MapHeader.canonical
  rw [if_neg h0, if_neg h0]
  exact (writes_putSize h).bind (Writes.put _)

theorem size_lt_of_mapBegin : ∀ {header : MapHeader}, mapBegin header w = .ok () w' → header.size < UInt32.size
  | ⟨key, val, size⟩, h => by
    obtain ⟨_, _, -, h⟩ := bind_eq_ok.1 h
    by_cases h0 : size = 0
    · show size < UInt32.size
      rw [h0]
      decide
    · rw [if_neg h0] at h
      cases key with
      | none => cases h
      | some key => cases val with
        | none => cases h
        | some val =>
          obtain ⟨_, _, h, -⟩ := bind_eq_ok.1 h
          exact size_lt_of_putSize h

theorem pendingBool_of_mapBegin : ∀ {header : MapHeader}, w.pendingBool = none → mapBegin header w = .ok () w' →
    w'.pendingBool = none
  | ⟨key, val, size⟩, hp, h => by
    have hsize := size_lt_of_mapBegin h
    by_cases h0 : size = 0
    · subst h0
      exact (writes_emptyMap key val).pendingBool hp h
    · cases key with
      | some key => cases val with
        | some val => exact (writes_mapBegin h0 hsize).pendingBool hp h
        | none =>
          rw [mapBegin, bind_of_ok (checkPending_eq hp), if_neg h0] at h
          cases h
      | none =>
        rw [mapBegin, bind_of_ok (checkPending_eq hp), if_neg h0] at h
        cases h

end CompactWire.Writer

import CompactWire.Limits
import CompactWire.Value

/-!
# CompactWire.Value.Parts — a value and all values inside it

`Value.parts` lists a value and the values inside it at every depth, the outer before the inner.  What a value has to
keep at every depth is said of one part at a time: `Value.Typed`, that its elements have the types it declares,
`Value.Writable`, that its own size has 32 bits as well, and `Value.Fits`, that its own size stays within limits.
`Value.weight` is the number of parts and of the bytes in their binaries.
-/

namespace CompactWire

namespace Value

mutual

/-- A value and all values inside it. -/
def parts : Value → List Value
  | .list element items => .list element items :: itemParts items
  | .set element items => .set element items :: itemParts items
  | .map key value entries => .map key value entries :: entryParts entries
  | .struct fields => .struct fields :: fieldParts fields
  | v => [v]

/-- The parts of all elements of a list or set. -/
def itemParts : List Value → List Value
  | [] => []
  | v :: vs => parts v ++ itemParts vs

/-- The parts of all keys and values of a map. -/
def entryParts : List (Value × Value) → List Value
  | [] => []
  | (k, v) :: rest => parts k ++ parts v ++ entryParts rest

/-- The parts of the values of all fields. -/
def fieldParts : List (Int16 × Value) → List Value
  | [] => []
  | (_, v) :: rest => parts v ++ fieldParts rest

end

theorem forall_mem_itemParts {P : Value → Prop} {vs : List Value} :
    (∀ p ∈ itemParts vs, P p) ↔ ∀ v ∈ vs, ∀ p ∈ v.parts, P p := by
  induction vs with
  | nil => simp [itemParts]
  | cons v vs ih => simp only [itemParts, List.forall_mem_append, List.forall_mem_cons, ih]

theorem forall_mem_entryParts {P : Value → Prop} {es : List (Value × Value)} :
    (∀ p ∈ entryParts es, P p) ↔ ∀ e ∈ es, (∀ p ∈ e.1.parts, P p) ∧ ∀ p ∈ e.2.parts, P p := by
  induction es with
  | nil => simp [entryParts]
  | cons e es ih => simp only [entryParts, List.forall_mem_append, List.forall_mem_cons, ih]

theorem forall_mem_fieldParts {P : Value → Prop} {fs : List (Int16 × Value)} :
    (∀ p ∈ fieldParts fs, P p) ↔ ∀ f ∈ fs, ∀ p ∈ f.2.parts, P p := by
  induction fs with
  | nil => simp [fieldParts]
  | cons f fs ih => simp only [fieldParts, List.forall_mem_append, List.forall_mem_cons, ih]

theorem self_mem_parts (v : Value) : v ∈ v.parts := by
  cases v <;> simp [parts]

/-- The number of bytes of a binary; other values have no bytes of their own. -/
def byteLength : Value → Nat
  | .binary bytes => bytes.length
  | _ => 0

/-- The number of elements of a list, set or map; other values have none. -/
def elementCount : Value → Nat
  | .list _ items => items.length
  | .set _ items => items.length
  | .map _ _ entries => entries.length
  | _ => 0

/-- The elements have the types that are declared for them.  A map without entries need not declare any. -/
def Typed : Value → Prop
  | .list element items => ∀ v ∈ items, v.type = element
  | .set element items => ∀ v ∈ items, v.type = element
  | .map key value entries => ∀ e ∈ entries, key = some e.1.type ∧ value = some e.2.type
  | _ => True

instance (v : Value) : Decidable v.Typed := by
  cases v <;> unfold Typed <;> infer_instance

/-- The bytes and the elements of the value itself stay within the limits. -/
def Fits (limits : Limits) (v : Value) : Prop :=
  v.byteLength ≤ limits.maxString ∧ v.elementCount ≤ limits.maxContainer

instance (limits : Limits) (v : Value) : Decidable (v.Fits limits) := by
  unfold Fits; infer_instance

/-- The value itself can be written: its elements have the types declared for them, and its size has 32 bits. -/
def Writable (v : Value) : Prop := v.Typed ∧ v.byteLength < UInt32.size ∧ v.elementCount < UInt32.size

instance (v : Value) : Decidable v.Writable := by
  unfold Writable; infer_instance

/-- How much a list of values holds: the values and the bytes of the binaries among them. -/
def weight (vs : List Value) : Nat := vs.foldr (fun v n => v.byteLength + 1 + n) 0

end Value

/-- The values in a record at every depth. -/
def Record.parts (r : Record) : List Value := Value.fieldParts r

end CompactWire

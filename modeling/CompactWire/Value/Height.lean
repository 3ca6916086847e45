import CompactWire.Value

/-!
# CompactWire.Value.Height — how deep values are nested

A value that holds no others has height one, and every struct or container adds one to the height of what it holds.
`structHeight` counts the structs alone.  A record is the struct around its fields and adds one level of structs, but
its fields lie at depth one.
-/

namespace CompactWire

namespace Value

mutual

/-- The greatest number of values of which each lies in the one before. -/
def height : Value → Nat
  | .list _ items => itemHeight items + 1
  | .set _ items => itemHeight items + 1
  | .map _ _ entries => entryHeight entries + 1
  | .struct fields => fieldHeight fields + 1
  | _ => 1

/-- The height of the highest element, or zero. -/
def itemHeight : List Value → Nat
  | [] => 0
  | v :: vs => max (height v) (itemHeight vs)

/-- The height of the highest key or value, or zero. -/
def entryHeight : List (Value × Value) → Nat
  | [] => 0
  | (k, v) :: rest => max (max (height k) (height v)) (entryHeight rest)

/-- The height of the highest field, or zero. -/
def fieldHeight : List (Int16 × Value) → Nat
  | [] => 0
  | (_, v) :: rest => max (height v) (fieldHeight rest)

end

mutual

/-- The greatest number of structs of which each lies in the one before. -/
def structHeight : Value → Nat
  | .list _ items => itemStructHeight items
  | .set _ items => itemStructHeight items
  | .map _ _ entries => entryStructHeight entries
  | .struct fields => fieldStructHeight fields + 1
  | _ => 0

/-- The most structs in an element. -/
def itemStructHeight : List Value → Nat
  | [] => 0
  | v :: vs => max (structHeight v) (itemStructHeight vs)

/-- The most structs in a key or value. -/
def entryStructHeight : List (Value × Value) → Nat
  | [] => 0
  | (k, v) :: rest => max (max (structHeight k) (structHeight v)) (entryStructHeight rest)

/-- The most structs in a field. -/
def fieldStructHeight : List (Int16 × Value) → Nat
  | [] => 0
  | (_, v) :: rest => max (structHeight v) (fieldStructHeight rest)

end

theorem itemHeight_le {n : Nat} {vs : List Value} : itemHeight vs ≤ n ↔ ∀ v ∈ vs, v.height ≤ n := by
  induction vs with
  | nil => simp [itemHeight]
  | cons v vs ih => rw [itemHeight, Nat.max_le, ih, List.forall_mem_cons]

theorem entryHeight_le {n : Nat} {es : List (Value × Value)} :
    entryHeight es ≤ n ↔ ∀ e ∈ es, e.1.height ≤ n ∧ e.2.height ≤ n := by
  induction es with
  | nil => simp [entryHeight]
  | cons e es ih => rw [entryHeight, Nat.max_le, Nat.max_le, ih, List.forall_mem_cons]

theorem fieldHeight_le {n : Nat} {fs : List (Int16 × Value)} :
    fieldHeight fs ≤ n ↔ ∀ f ∈ fs, f.2.height ≤ n := by
  induction fs with
  | nil => simp [fieldHeight]
  | cons f fs ih => rw [fieldHeight, Nat.max_le, ih, List.forall_mem_cons]

theorem itemStructHeight_le {n : Nat} {vs : List Value} :
    itemStructHeight vs ≤ n ↔ ∀ v ∈ vs, v.structHeight ≤ n := by
  induction vs with
  | nil => simp [itemStructHeight]
  | cons v vs ih => rw [itemStructHeight, Nat.max_le, ih, List.forall_mem_cons]

theorem entryStructHeight_le {n : Nat} {es : List (Value × Value)} :
    entryStructHeight es ≤ n ↔ ∀ e ∈ es, e.1.structHeight ≤ n ∧ e.2.structHeight ≤ n := by
  induction es with
  | nil => simp [entryStructHeight]
  | cons e es ih => rw [entryStructHeight, Nat.max_le, Nat.max_le, ih, List.forall_mem_cons]

theorem fieldStructHeight_le {n : Nat} {fs : List (Int16 × Value)} :
    fieldStructHeight fs ≤ n ↔ ∀ f ∈ fs, f.2.structHeight ≤ n := by
  induction fs with
  | nil => simp [fieldStructHeight]
  | cons f fs ih => rw [fieldStructHeight, Nat.max_le, ih, List.forall_mem_cons]

theorem height_pos (v : Value) : 0 < v.height := by
  cases v <;> simp [height]

end Value

/-- The depth of the deepest value in a record. -/
def Record.height (r : Record) : Nat := Value.fieldHeight r

/-- The most structs around one another, the record counted. -/
def Record.structHeight (r : Record) : Nat := Value.fieldStructHeight r + 1

end CompactWire

import CompactWire.Value.Height

/-!
# CompactWire.Value.Normal — values as they are read back

The wire keeps everything of a value but one thing: a map without entries is written without its types.
`Value.normal` takes these types away at every depth, and nothing else; `normal_normal` says that once is enough, and
the heights stay as they are.
-/

namespace CompactWire

namespace Value

mutual

/-- A value without the types of its empty maps. -/
def normal : Value → Value
  | .list element items => .list element (normalItems items)
  | .set element items => .set element (normalItems items)
  | .map _ _ [] => .map none none []
  | .map key value (e :: es) => .map key value (normalEntries (e :: es))
  | .struct fields => .struct (normalFields fields)
  | v => v

/-- The elements of a list or set, each in normal form. -/
def normalItems : List Value → List Value
  | [] => []
  | v :: vs => normal v :: normalItems vs

/-- The entries of a map, each in normal form. -/
def normalEntries : List (Value × Value) → List (Value × Value)
  | [] => []
  | (k, v) :: rest => (normal k, normal v) :: normalEntries rest

/-- The fields of a struct, each in normal form. -/
def normalFields : List (Int16 × Value) → List (Int16 × Value)
  | [] => []
  | (id, v) :: rest => (id, normal v) :: normalFields rest

end

@[simp] theorem normalItems_eq_map (vs : List Value) : normalItems vs = vs.map normal := by
  induction vs with
  | nil => simp [normalItems]
  | cons v vs ih => simp [normalItems, ih]

@[simp] theorem normalEntries_eq_map (es : List (Value × Value)) :
    normalEntries es = es.map fun e => (e.1.normal, e.2.normal) := by
  induction es with
  | nil => simp [normalEntries]
  | cons e es ih => simp [normalEntries, ih]

@[simp] theorem normalFields_eq_map (fs : List (Int16 × Value)) :
    normalFields fs = fs.map fun f => (f.1, f.2.normal) := by
  induction fs with
  | nil => simp [normalFields]
  | cons f fs ih => simp [normalFields, ih]

@[simp] theorem type_normal (v : Value) : v.normal.type = v.type := by
  fun_cases normal v <;> simp_all [type]

@[simp] theorem normal_normal (v : Value) : v.normal.normal = v.normal := by
  induction v with
  | map key value entries ih => cases entries with
    | nil => simp [normal]
    | cons e es =>
      simp only [normal, normalEntries_eq_map, List.map_cons, List.map_map]
      simpa using ih
  | list element items ih => simpa [normal] using ih
  | set element items ih => simpa [normal] using ih
  | struct fields ih => simpa [normal] using ih
  | _ => simp [normal]

/-! ### Heights -/

theorem itemHeight_map {g : Value → Value} {vs : List Value} (h : ∀ v ∈ vs, (g v).height = v.height) :
    itemHeight (vs.map g) = itemHeight vs := by
  induction vs with
  | nil => rfl
  | cons v vs ih =>
    rw [List.forall_mem_cons] at h
    rw [List.map_cons, itemHeight, itemHeight, h.1, ih h.2]

theorem entryHeight_map {g : Value → Value} {es : List (Value × Value)}
    (h : ∀ e ∈ es, (g e.1).height = e.1.height ∧ (g e.2).height = e.2.height) :
    entryHeight (es.map fun e => (g e.1, g e.2)) = entryHeight es := by
  induction es with
  | nil => rfl
  | cons e es ih =>
    rw [List.forall_mem_cons] at h
    rw [List.map_cons, entryHeight, entryHeight, h.1.1, h.1.2, ih h.2]

theorem fieldHeight_map {g : Value → Value} {fs : List (Int16 × Value)} (h : ∀ f ∈ fs, (g f.2).height = f.2.height) :
    fieldHeight (fs.map fun f => (f.1, g f.2)) = fieldHeight fs := by
  induction fs with
  | nil => rfl
  | cons f fs ih =>
    rw [List.forall_mem_cons] at h
    rw [List.map_cons, fieldHeight, fieldHeight, h.1, ih h.2]

@[simp] theorem height_normal (v : Value) : v.normal.height = v.height := by
  induction v with
  | list element items ih => simp only [normal, normalItems_eq_map, height, itemHeight_map ih]
  | set element items ih => simp only [normal, normalItems_eq_map, height, itemHeight_map ih]
  | map key value entries ih => cases entries with
    | nil => rfl
    | cons e es => simp only [normal, normalEntries_eq_map, height, entryHeight_map ih]
  | struct fields ih => simp only [normal, normalFields_eq_map, height, fieldHeight_map ih]
  | _ => rfl

theorem itemStructHeight_map {g : Value → Value} {vs : List Value}
    (h : ∀ v ∈ vs, (g v).structHeight = v.structHeight) : itemStructHeight (vs.map g) = itemStructHeight vs := by
  induction vs with
  | nil => rfl
  | cons v vs ih =>
    rw [List.forall_mem_cons] at h
    rw [List.map_cons, itemStructHeight, itemStructHeight, h.1, ih h.2]

theorem entryStructHeight_map {g : Value → Value} {es : List (Value × Value)}
    (h : ∀ e ∈ es, (g e.1).structHeight = e.1.structHeight ∧ (g e.2).structHeight = e.2.structHeight) :
    entryStructHeight (es.map fun e => (g e.1, g e.2)) = entryStructHeight es := by
  induction es with
  | nil => rfl
  | cons e es ih =>
    rw [List.forall_mem_cons] at h
    rw [List.map_cons, entryStructHeight, entryStructHeight, h.1.1, h.1.2, ih h.2]

theorem fieldStructHeight_map {g : Value → Value} {fs : List (Int16 × Value)}
    (h : ∀ f ∈ fs, (g f.2).structHeight = f.2.structHeight) :
    fieldStructHeight (fs.map fun f => (f.1, g f.2)) = fieldStructHeight fs := by
  induction fs with
  | nil => rfl
  | cons f fs ih =>
    rw [List.forall_mem_cons] at h
    rw [List.map_cons, fieldStructHeight, fieldStructHeight, h.1, ih h.2]

@[simp] theorem structHeight_normal (v : Value) : v.normal.structHeight = v.structHeight := by
  induction v with
  | list element items ih => simp only [normal, normalItems_eq_map, structHeight, itemStructHeight_map ih]
  | set element items ih => simp only [normal, normalItems_eq_map, structHeight, itemStructHeight_map ih]
  | map key value entries ih => cases entries with
    | nil => rfl
    | cons e es => simp only [normal, normalEntries_eq_map, structHeight, entryStructHeight_map ih]
  | struct fields ih => simp only [normal, normalFields_eq_map, structHeight, fieldStructHeight_map ih]
  | _ => rfl

end Value

/-- A record without the types of its empty maps. -/
def Record.normal (r : Record) : Record := r.map fun f => (f.1, f.2.normal)

@[simp] theorem Record.height_normal (r : Record) : Record.height (Record.normal r) = r.height :=
  Value.fieldHeight_map fun f _ => Value.height_normal f.2

@[simp] theorem Record.structHeight_normal (r : Record) : Record.structHeight (Record.normal r) = r.structHeight :=
  congrArg (· + 1) (Value.fieldStructHeight_map fun f _ => Value.structHeight_normal f.2)

@[simp] theorem Record.normal_normal (r : Record) : Record.normal (Record.normal r) = Record.normal r := by
  simp [Record.normal]

end CompactWire

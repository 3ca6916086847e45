import CompactWire.Bytes
import CompactWire.WireType

/-!
# CompactWire.Value — values and records

A record is the list of the fields of a struct, in wire order: ids may repeat and come in any order.  Doubles are
their 64 bits, so no payload of a NaN is lost, and a string is the binary that holds its bytes.
-/

namespace CompactWire

/-- A value of any type. -/
inductive Value
  | bool (b : Bool)
  | byte (n : Int8)
  | i16 (n : Int16)
  | i32 (n : Int32)
  | i64 (n : Int64)
  | double (bits : UInt64)
  | binary (bytes : Bytes)
  | list (element : WireType) (items : List Value)
  | set (element : WireType) (items : List Value)
  /-- An empty map may lack its types. -/
  | map (key value : Option WireType) (entries : List (Value × Value))
  | struct (fields : List (Int16 × Value))

/-- The fields of a struct, in wire order. -/
abbrev Record := List (Int16 × Value)

/-- The type of a value. -/
def Value.type : Value → WireType
  | bool _ => .bool
  | byte _ => .byte
  | i16 _ => .i16
  | i32 _ => .i32
  | i64 _ => .i64
  | double _ => .double
  | binary _ => .binary
  | list _ _ => .list
  | set _ _ => .set
  | map _ _ _ => .map
  | struct _ => .struct

theorem Value.type_ne_stop (v : Value) : v.type ≠ .stop := by
  cases v <;> simp [type]

/-- What holds of a value if it holds of the values directly inside it holds of every value. -/
@[elab_as_elim, induction_eliminator] theorem Value.induct {motive : Value → Prop} (bool : ∀ b, motive (.bool b))
    (byte : ∀ n, motive (.byte n)) (i16 : ∀ n, motive (.i16 n)) (i32 : ∀ n, motive (.i32 n))
    (i64 : ∀ n, motive (.i64 n)) (double : ∀ bits, motive (.double bits))
    (binary : ∀ bytes, motive (.binary bytes))
    (list : ∀ element items, (∀ v ∈ items, motive v) → motive (.list element items))
    (set : ∀ element items, (∀ v ∈ items, motive v) → motive (.set element items))
    (map : ∀ key value entries, (∀ e ∈ entries, motive e.1 ∧ motive e.2) → motive (.map key value entries))
    (struct : ∀ fields, (∀ f ∈ fields, motive f.2) → motive (.struct fields)) (v : Value) : motive v :=
  match v with
  | .bool b => bool b
  | .byte n => byte n
  | .i16 n => i16 n
  | .i32 n => i32 n
  | .i64 n => i64 n
  | .double bits => double bits
  | .binary bytes => binary bytes
  | .list element items => list element items fun v _ =>
    Value.induct bool byte i16 i32 i64 double binary list set map struct v
  | .set element items => set element items fun v _ =>
    Value.induct bool byte i16 i32 i64 double binary list set map struct v
  | .map key value entries => map key value entries fun (k, v) _ =>
    ⟨Value.induct bool byte i16 i32 i64 double binary list set map struct k,
      Value.induct bool byte i16 i32 i64 double binary list set map struct v⟩
  | .struct fields => struct fields fun (_, v) _ =>
    Value.induct bool byte i16 i32 i64 double binary list set map struct v
termination_by v
decreasing_by
  all_goals
    rename_i h
    have := List.sizeOf_lt_of_mem h
    simp at this ⊢
    omega

/-- The id of the last field, or the one before the fields. -/
def Record.lastId (last : Int16) : Record → Int16
  | [] => last
  | (id, _) :: fields => Record.lastId id fields

/-- The first field with the given id. -/
def Record.get? (r : Record) (id : Int16) : Option Value := List.lookup id r

end CompactWire

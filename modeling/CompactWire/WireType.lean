/-!
# CompactWire.WireType — the types of values and their codes

Every value has one of eleven types; `stop` ends the fields of a struct and types no value.  On the wire a type is a
code below 16.  Booleans own two codes, so that a field can carry its boolean inside its header: `code` writes a
boolean type as `1`, and `ofCode?` reads both `1` and `2` (`ofCode?_code`).
-/

namespace CompactWire

/-- The type of a value. -/
inductive WireType
  | stop
  | bool
  | byte
  | i16
  | i32
  | i64
  | double
  | binary
  | list
  | set
  | map
  | struct
deriving DecidableEq

namespace WireType

/-- The code a type is written with. -/
def code : WireType → Nat
  | stop => 0
  | bool => 1
  | byte => 3
  | i16 => 4
  | i32 => 5
  | i64 => 6
  | double => 7
  | binary => 8
  | list => 9
  | set => 10
  | map => 11
  | struct => 12

/-- The type of a code; `13` to `15` belong to no type. -/
def ofCode? : Nat → Option WireType
  | 0 => some stop
  | 1 => some bool
  | 2 => some bool
  | 3 => some byte
  | 4 => some i16
  | 5 => some i32
  | 6 => some i64
  | 7 => some double
  | 8 => some binary
  | 9 => some list
  | 10 => some set
  | 11 => some map
  | 12 => some struct
  | _ => none

/-- The code of a boolean that is folded into a field header, or stands alone. -/
def boolCode (b : Bool) : Nat := if b then 1 else 2

@[simp] theorem ofCode?_code (t : WireType) : ofCode? t.code = some t := by
  cases t <;> rfl

@[simp] theorem ofCode?_boolCode (b : Bool) : ofCode? (boolCode b) = some bool := by
  cases b <;> rfl

theorem lt_of_ofCode? {n : Nat} {t : WireType} (h : ofCode? n = some t) : n < 16 := by
  unfold ofCode? at h
  split at h <;> first | omega | cases h

/-- All types but the boolean one have a single code. -/
theorem code_of_ofCode? {n : Nat} {t : WireType} (h : ofCode? n = some t) (ht : t ≠ bool) : n = t.code := by
  unfold ofCode? at h
  split at h <;> cases h <;> first | rfl | exact absurd rfl ht

theorem boolCode_of_ofCode? {n : Nat} (h : ofCode? n = some bool) : n = boolCode (n = 1) := by
  unfold ofCode? at h
  split at h <;> cases h <;> rfl

/-- The name of a type in printed records. -/
def name : WireType → String
  | stop => "stop"
  | bool => "bool"
  | byte => "byte"
  | i16 => "i16"
  | i32 => "i32"
  | i64 => "i64"
  | double => "double"
  | binary => "binary"
  | list => "list"
  | set => "set"
  | map => "map"
  | struct => "struct"

/-- The name of a type in error texts. -/
def label : WireType → String
  | stop => "Stop"
  | bool => "Bool"
  | byte => "Byte"
  | i16 => "I16"
  | i32 => "I32"
  | i64 => "I64"
  | double => "Double"
  | binary => "Binary"
  | list => "List"
  | set => "Set"
  | map => "Map"
  | struct => "Struct"

end WireType

end CompactWire

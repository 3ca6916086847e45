import CompactWire.Header
import CompactWire.Limits
import CompactWire.Value
import CompactWire.Varint.Form

/-!
# CompactWire.Grammar — the byte strings that stand for values

`Phrase.Written limits p bs` says that `bs` is a way to write `p`: a value, a run of elements, entries or fields.  It is
one relation with a rule for each form of the wire, and it knows no reader and no writer.  The wire is lenient: numbers
may be longer than they need, sizes and ids may be written in full where a short form would do, both codes of a boolean
type are good, and any byte but one stands for false.

`Phrase.Written none` is the grammar of the wire.  With limits a length or a size that is a number of its own has to
keep to them; a size that shares a byte with a type does not, and depth is no matter of forms.
-/

namespace CompactWire

/-- A length that keeps to the limits, if there are any. -/
def Limits.AllowsLength (limits : Option Limits) (length : Nat) : Prop := ∀ l ∈ limits, length ≤ l.maxString

/-- A size that keeps to the limits, if there are any. -/
def Limits.AllowsSize (limits : Option Limits) (size : Nat) : Prop := ∀ l ∈ limits, size ≤ l.maxContainer

@[simp] theorem Limits.allowsLength_some {l : Limits} {length : Nat} :
    AllowsLength (some l) length ↔ length ≤ l.maxString := by
  simp [AllowsLength]

@[simp] theorem Limits.allowsSize_some {l : Limits} {size : Nat} :
    AllowsSize (some l) size ↔ size ≤ l.maxContainer := by
  simp [AllowsSize]

variable (limits : Option Limits)

/-- What a run of bytes stands for. -/
inductive Phrase
  | value (v : Value)
  | items (vs : List Value)
  | entries (es : List (Value × Value))
  /-- Fields and their end, behind a field with id `last` of the same struct. -/
  | fields (last : Int16) (r : Record)

/-- `code` is a code of `type`. -/
def WireType.HasCode (type : WireType) (code : Nat) : Prop := ofCode? code = some type

/-- The head of a list or set: a size up to 14 in the high half of a byte, or any size behind one whose half is 15. -/
inductive CollectionHeader.Written (h : CollectionHeader) : Bytes → Prop
  | short {code : Nat} (type : h.element.HasCode code) (size : h.size ≤ 14) : Written h [nibbles h.size code]
  | long {code : Nat} {bs : Bytes} (type : h.element.HasCode code) (size : Varint.Width.w32.Admits h.size bs)
    (allowed : Limits.AllowsSize limits h.size) : Written h (nibbles 15 code :: bs)

/-- The head of a field with the given id and code, behind a field with id `last`: a step of 1 to 15, which goes round
at the greatest id, or the id itself, of which the low 16 bits count. -/
inductive FieldWritten (last : Int16) (code : Nat) : Int16 → Bytes → Prop
  | step {d : Nat} (pos : 1 ≤ d) (le : d ≤ 15) : FieldWritten last code (last + Int16.ofNat d) [nibbles d code]
  | full {n : Nat} {bs : Bytes} (id : Varint.Width.w32.Admits n bs) :
    FieldWritten last code (Int16.ofInt (Varint.unzigzag n)) (nibbles 0 code :: bs)

namespace Phrase

/-- `bs` is a way to write a phrase. -/
inductive Written : Phrase → Bytes → Prop
  | bool (b : UInt8) : Written (value (.bool (b = 1))) [b]
  | byte (n : Int8) : Written (value (.byte n)) [n.toUInt8]
  | i16 {n : Nat} {bs : Bytes} (h : Varint.Width.w32.Admits n bs) :
    Written (value (.i16 (Int16.ofInt (Varint.unzigzag n)))) bs
  | i32 {n : Nat} {bs : Bytes} (h : Varint.Width.w32.Admits n bs) :
    Written (value (.i32 (Int32.ofInt (Varint.unzigzag n)))) bs
  | i64 {n : Nat} {bs : Bytes} (h : Varint.Width.w64.Admits n bs) :
    Written (value (.i64 (Int64.ofInt (Varint.unzigzag n)))) bs
  | double (bits : UInt64) : Written (value (.double bits)) (Bytes.littleEndian 8 bits.toNat)
  | binary {bytes bs : Bytes} (length : Varint.Width.w32.Admits bytes.length bs)
    (allowed : Limits.AllowsLength limits bytes.length) : Written (value (.binary bytes)) (bs ++ bytes)
  | list {element : WireType} {vs : List Value} {head bs : Bytes}
    (header : CollectionHeader.Written limits ⟨element, vs.length⟩ head) (types : ∀ v ∈ vs, v.type = element)
    (elements : Written (items vs) bs) : Written (value (.list element vs)) (head ++ bs)
  | set {element : WireType} {vs : List Value} {head bs : Bytes}
    (header : CollectionHeader.Written limits ⟨element, vs.length⟩ head) (types : ∀ v ∈ vs, v.type = element)
    (elements : Written (items vs) bs) : Written (value (.set element vs)) (head ++ bs)
  /-- An empty map is its size. -/
  | emptyMap {bs : Bytes} (size : Varint.Width.w32.Admits 0 bs) : Written (value (.map none none [])) bs
  | map {key val : WireType} {es : List (Value × Value)} {keyCode valCode : Nat} {head bs : Bytes}
    (nonempty : es ≠ []) (size : Varint.Width.w32.Admits es.length head)
    (allowed : Limits.AllowsSize limits es.length) (keyType : key.HasCode keyCode) (valType : val.HasCode valCode)
    (types : ∀ e ∈ es, e.1.type = key ∧ e.2.type = val) (elements : Written (entries es) bs) :
    Written (value (.map (some key) (some val) es)) (head ++ nibbles keyCode valCode :: bs)
  | struct {r : Record} {bs : Bytes} (members : Written (fields 0 r) bs) : Written (value (.struct r)) bs
  | noItems : Written (items []) []
  | item {v : Value} {vs : List Value} {bs rest : Bytes} (first : Written (value v) bs)
    (others : Written (items vs) rest) : Written (items (v :: vs)) (bs ++ rest)
  | noEntries : Written (entries []) []
  | entry {k v : Value} {es : List (Value × Value)} {keyBytes bs rest : Bytes} (key : Written (value k) keyBytes)
    (val : Written (value v) bs) (others : Written (entries es) rest) :
    Written (entries ((k, v) :: es)) (keyBytes ++ bs ++ rest)
  | stop {last : Int16} : Written (fields last []) [0]
  /-- The head of a boolean field is all of it: its code is the boolean. -/
  | boolField {last id : Int16} {b : Bool} {r : Record} {head rest : Bytes}
    (header : FieldWritten last (WireType.boolCode b) id head) (others : Written (fields id r) rest) :
    Written (fields last ((id, .bool b) :: r)) (head ++ rest)
  | field {last id : Int16} {v : Value} {r : Record} {head bs rest : Bytes} (notBool : v.type ≠ .bool)
    (header : FieldWritten last v.type.code id head) (val : Written (value v) bs)
    (others : Written (fields id r) rest) : Written (fields last ((id, v) :: r)) (head ++ bs ++ rest)

end Phrase

end CompactWire

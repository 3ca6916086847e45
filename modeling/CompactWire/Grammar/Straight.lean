import CompactWire.Grammar

/-!
# CompactWire.Grammar.Straight — byte strings in which no id goes round

A step from the id of one field to the next that leads past the greatest id goes round to the least ones.  No writer
takes such a step, but readers do.  `Phrase.Straight limits p bs` says that `bs` is a way to write `p` without one, at
any depth: the rules are those of `Phrase.Written`, with the heads of fields restricted to `FieldStraight`.
-/

namespace CompactWire

/-- The head of a field with the given id and code, behind a field with id `last`: a step that stays within the ids, or
the id itself. -/
inductive FieldStraight (last : Int16) (code : Nat) : Int16 → Bytes → Prop
  | step {d : Nat} (pos : 1 ≤ d) (le : d ≤ 15) (within : last.toInt + d < 32768) :
    FieldStraight last code (last + Int16.ofNat d) [nibbles d code]
  | full {n : Nat} {bs : Bytes} (id : Varint.Width.w32.Admits n bs) :
    FieldStraight last code (Int16.ofInt (Varint.unzigzag n)) (nibbles 0 code :: bs)

/-- Values of this type have no others inside. -/
def WireType.IsScalar : WireType → Prop
  | .list | .set | .map | .struct => False
  | _ => True

namespace Phrase

variable (limits : Option Limits)

/-- `bs` is a way to write a phrase in which no step from id to id goes round. -/
inductive Straight : Phrase → Bytes → Prop
  | scalar {v : Value} {bs : Bytes} (scalar : v.type.IsScalar) (written : Written limits (value v) bs) :
    Straight (value v) bs
  | list {element : WireType} {vs : List Value} {head bs : Bytes}
    (header : CollectionHeader.Written limits ⟨element, vs.length⟩ head) (types : ∀ v ∈ vs, v.type = element)
    (elements : Straight (items vs) bs) : Straight (value (.list element vs)) (head ++ bs)
  | set {element : WireType} {vs : List Value} {head bs : Bytes}
    (header : CollectionHeader.Written limits ⟨element, vs.length⟩ head) (types : ∀ v ∈ vs, v.type = element)
    (elements : Straight (items vs) bs) : Straight (value (.set element vs)) (head ++ bs)
  | emptyMap {bs : Bytes} (size : Varint.Width.w32.Admits 0 bs) : Straight (value (.map none none [])) bs
  | map {key val : WireType} {es : List (Value × Value)} {keyCode valCode : Nat} {head bs : Bytes}
    (nonempty : es ≠ []) (size : Varint.Width.w32.Admits es.length head)
    (allowed : Limits.AllowsSize limits es.length) (keyType : key.HasCode keyCode) (valType : val.HasCode valCode)
    (types : ∀ e ∈ es, e.1.type = key ∧ e.2.type = val) (elements : Straight (entries es) bs) :
    Straight (value (.map (some key) (some val) es)) (head ++ nibbles keyCode valCode :: bs)
  | struct {r : Record} {bs : Bytes} (members : Straight (fields 0 r) bs) : Straight (value (.struct r)) bs
  | noItems : Straight (items []) []
  | item {v : Value} {vs : List Value} {bs rest : Bytes} (first : Straight (value v) bs)
    (others : Straight (items vs) rest) : Straight (items (v :: vs)) (bs ++ rest)
  | noEntries : Straight (entries []) []
  | entry {k v : Value} {es : List (Value × Value)} {keyBytes bs rest : Bytes} (key : Straight (value k) keyBytes)
    (val : Straight (value v) bs) (others : Straight (entries es) rest) :
    Straight (entries ((k, v) :: es)) (keyBytes ++ bs ++ rest)
  | stop {last : Int16} : Straight (fields last []) [0]
  | boolField {last id : Int16} {b : Bool} {r : Record} {head rest : Bytes}
    (header : FieldStraight last (WireType.boolCode b) id head) (others : Straight (fields id r) rest) :
    Straight (fields last ((id, .bool b) :: r)) (head ++ rest)
  | field {last id : Int16} {v : Value} {r : Record} {head bs rest : Bytes} (notBool : v.type ≠ .bool)
    (header : FieldStraight last v.type.code id head) (val : Straight (value v) bs)
    (others : Straight (fields id r) rest) : Straight (fields last ((id, v) :: r)) (head ++ bs ++ rest)

end Phrase

end CompactWire

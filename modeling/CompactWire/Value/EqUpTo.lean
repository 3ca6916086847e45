import CompactWire.Value
import Mathlib.Data.List.Forall2

/-!
# CompactWire.Value.EqUpTo — values that are equal up to their doubles

`Value.EqUpTo R` relates values of the same shape whose doubles are related by `R`, at every depth; all else in them is
equal, in the same order.
-/

namespace CompactWire

/-- Two values are equal but for their doubles, of which each is related by `R` to the one in its place. -/
inductive Value.EqUpTo (R : UInt64 → UInt64 → Prop) : Value → Value → Prop
  | bool (b : Bool) : EqUpTo R (.bool b) (.bool b)
  | byte (n : Int8) : EqUpTo R (.byte n) (.byte n)
  | i16 (n : Int16) : EqUpTo R (.i16 n) (.i16 n)
  | i32 (n : Int32) : EqUpTo R (.i32 n) (.i32 n)
  | i64 (n : Int64) : EqUpTo R (.i64 n) (.i64 n)
  | double {a b : UInt64} (h : R a b) : EqUpTo R (.double a) (.double b)
  | binary (bytes : Bytes) : EqUpTo R (.binary bytes) (.binary bytes)
  | list (element : WireType) {vs ws : List Value} (items : List.Forall₂ (EqUpTo R) vs ws) :
    EqUpTo R (.list element vs) (.list element ws)
  | set (element : WireType) {vs ws : List Value} (items : List.Forall₂ (EqUpTo R) vs ws) :
    EqUpTo R (.set element vs) (.set element ws)
  | map (key value : Option WireType) {es fs : List (Value × Value)}
    (keys : List.Forall₂ (fun e f => EqUpTo R e.1 f.1) es fs)
    (values : List.Forall₂ (fun e f => EqUpTo R e.2 f.2) es fs) :
    EqUpTo R (.map key value es) (.map key value fs)
  | struct {fs gs : List (Int16 × Value)} (ids : List.Forall₂ (fun f g => f.1 = g.1) fs gs)
    (values : List.Forall₂ (fun f g => EqUpTo R f.2 g.2) fs gs) : EqUpTo R (.struct fs) (.struct gs)

namespace Value

variable {α β : Type} {R : UInt64 → UInt64 → Prop}

/-- What holds of the pairs in two lists part by part holds of them as a whole. -/
theorem forall₂_and {P Q : α → β → Prop} {as : List α} {bs : List β} (hP : List.Forall₂ P as bs)
    (hQ : List.Forall₂ Q as bs) : List.Forall₂ (fun a b => P a b ∧ Q a b) as bs := by
  induction hP with
  | nil => exact .nil
  | cons hab _ ih =>
    cases hQ with
    | cons hab' hQ => exact .cons ⟨hab, hab'⟩ (ih hQ)

theorem EqUpTo.refl (hR : ∀ a, R a a) (v : Value) : EqUpTo R v v := by
  induction v with
  | bool b => exact .bool b
  | byte n => exact .byte n
  | i16 n => exact .i16 n
  | i32 n => exact .i32 n
  | i64 n => exact .i64 n
  | double bits => exact .double (hR bits)
  | binary bytes => exact .binary bytes
  | list element items ih => exact .list element (List.forall₂_same.2 ih)
  | set element items ih => exact .set element (List.forall₂_same.2 ih)
  | map key value entries ih =>
    exact .map key value (List.forall₂_same.2 fun e he => (ih e he).1) (List.forall₂_same.2 fun e he => (ih e he).2)
  | struct fields ih => exact .struct (List.forall₂_same.2 fun _ _ => rfl) (List.forall₂_same.2 ih)

/-- Lists that are related element by element are related by whatever that says of the elements of the first. -/
theorem forall₂_imp_of_mem {P Q : α → β → Prop} {as : List α} {bs : List β} (h : ∀ a ∈ as, ∀ b, P a b → Q a b)
    (hP : List.Forall₂ P as bs) : List.Forall₂ Q as bs :=
  ((List.forall₂_and_left as bs).2 ⟨h, hP⟩).imp fun _ b hab => hab.1 b hab.2

end Value

end CompactWire

import CompactWire.Proofs.Outcome
import CompactWire.Reader.Value
import CompactWire.Value.Parts

/-!
# CompactWire.Proofs.Gives — what a successful reading gives

`Reader.Gives` says of a reading that it keeps the limits and what they say of its result.  Lengths and sizes are within
the limits (`gives_readLength`, `gives_readSize`), but for the sizes that share a byte with a type.  What is said of
every part of a value holds of all values that are read, if it holds of the parts without bytes whose sizes a header
can bring (`Bears`) and of the binaries that are read (`gives_value`, `gives_record`).
-/

namespace CompactWire

open Outcome

namespace Reader

variable {ι span : Type} {α β : Type}

/-! ### What a successful reading gives -/

/-- Where the reading succeeds it keeps the limits, and `Q` tells what they say of its result. -/
def Gives (Q : Limits → α → Prop) (x : Reading ι α) : Prop :=
  ∀ r a r', x r = .ok a r' → r'.limits = r.limits ∧ Q r.limits a

/-- Where the reading succeeds it keeps the limits. -/
abbrev KeepsLimits (x : Reading ι α) : Prop := Gives (fun _ _ => True) x

namespace Gives

variable {Q R : Limits → α → Prop} {W : Limits → β → Prop} {x : Reading ι α} {f : α → Reading ι β}

theorem pure {a : α} (h : ∀ l, Q l a) : Gives (ι := ι) Q (pure a) := by
  rintro r _ _ ⟨⟩
  exact ⟨rfl, h r.limits⟩

theorem throw (e : Error) : Gives (ι := ι) Q (throw e) := by
  rintro r a r' ⟨⟩

theorem bind (hx : Gives Q x) (hf : ∀ a, Gives (fun l b => Q l a → W l b) (f a)) : Gives W (x >>= f) := by
  intro r b r' h
  obtain ⟨a, t, h₁, h₂⟩ := bind_eq_ok.1 h
  obtain ⟨hlimits, hQ⟩ := hx r a t h₁
  obtain ⟨hlimits', hW⟩ := hf a t b r' h₂
  rw [hlimits] at hlimits' hW
  exact ⟨hlimits', hW hQ⟩

theorem mono (hx : Gives Q x) (h : ∀ l a, Q l a → R l a) : Gives R x := by
  intro r a r' hr
  obtain ⟨hlimits, hQ⟩ := hx r a r' hr
  exact ⟨hlimits, h _ _ hQ⟩

theorem map (hx : Gives Q x) (g : α → β) (h : ∀ l a, Q l a → W l (g a)) : Gives W (do return g (← x)) :=
  hx.bind fun a => Gives.pure fun l hQ => h l a hQ

theorem get {f : Reader ι → Reading ι β} (h : ∀ r b r', f r r = .ok b r' → r'.limits = r.limits ∧ W r.limits b) :
    Gives W (get >>= f) := h

theorem onInput (x : EStateM Error ι α) : KeepsLimits (onInput x) := by
  intro r a r' h
  unfold Reader.onInput at h
  split at h <;> cases h
  exact ⟨rfl, trivial⟩

end Gives

/-! ### Headers -/

variable [Input ι span]

theorem gives_readSize : Gives (ι := ι) (fun l size => size ≤ l.maxContainer) readSize := by
  refine (Gives.onInput _).bind fun size => Gives.get fun r b r' h => ?_
  dsimp only at h
  split at h <;> cases h
  rename_i hle
  exact ⟨rfl, fun _ => Nat.not_lt.1 hle⟩

theorem gives_readLength : Gives (ι := ι) (fun l length => length ≤ l.maxString) readLength := by
  refine (Gives.onInput _).bind fun length => Gives.get fun r b r' h => ?_
  dsimp only at h
  split at h <;> cases h
  rename_i hle
  exact ⟨rfl, fun _ => Nat.not_lt.1 hle⟩

theorem keepsLimits_typeOf (code : Nat) : KeepsLimits (ι := ι) (typeOf code) := by
  unfold typeOf
  split
  · exact Gives.pure fun _ => trivial
  · exact Gives.throw _

/-- The size of a list or set is packed, or it keeps to the limit. -/
theorem gives_collectionBegin :
    Gives (ι := ι) (fun l header => header.size ≤ max 14 l.maxContainer) collectionBegin := by
  refine (Gives.onInput _).bind fun b => (keepsLimits_typeOf _).bind fun element => ?_
  have hhalf := b.toNat_lt
  have hsize : Gives (ι := ι) (fun l size => size ≤ max 14 l.maxContainer) (collectionSize (b.toNat / 16)) := by
    unfold collectionSize
    split
    · exact gives_readSize.mono fun l size h => Nat.le_trans h (Nat.le_max_right _ _)
    · refine Gives.pure fun l => Nat.le_trans ?_ (Nat.le_max_left _ _)
      omega
  exact hsize.map _ fun l size h _ _ => h

theorem gives_mapBegin : Gives (ι := ι) (fun l header => header.size ≤ l.maxContainer) mapBegin := by
  refine gives_readSize.bind fun size => ?_
  split
  · exact Gives.pure fun l _ => Nat.zero_le _
  · refine (Gives.onInput _).bind fun b => (keepsLimits_typeOf _).bind fun key => (keepsLimits_typeOf _).map _ ?_
    exact fun l val _ _ _ hsize => hsize

theorem keepsLimits_i16 : KeepsLimits (ι := ι) i16 :=
  ((Gives.onInput _).map Int32.ofInt fun _ _ h => h).map Int32.toInt16 fun _ _ h => h

theorem keepsLimits_fieldBegin : KeepsLimits (ι := ι) fieldBegin := by
  refine (Gives.onInput _).bind fun b => ?_
  dsimp only
  split
  · exact Gives.pure fun _ _ => trivial
  · refine (keepsLimits_typeOf _).bind fun type => ?_
    have hid : KeepsLimits (ι := ι) (fieldId (b.toNat / 16)) := by
      unfold fieldId
      split
      · exact keepsLimits_i16
      · refine Gives.get fun r id r' h => ?_
        cases h
        exact ⟨rfl, trivial⟩
    split
    · exact Gives.throw (α := Option FieldHeader) _
    · refine hid.bind fun id => Gives.get fun r header r' h => ?_
      cases h
      exact ⟨rfl, fun _ _ _ => trivial⟩

theorem keepsLimits_structBegin : KeepsLimits (ι := ι) structBegin := by
  refine Gives.get fun r _ r' h => ?_
  by_cases hdepth : r.limits.maxDepth ≤ r.depth
  · rw [if_pos hdepth] at h
    cases h
  · rw [if_neg hdepth] at h
    cases h
    exact ⟨rfl, trivial⟩

theorem keepsLimits_structEnd : KeepsLimits (ι := ι) structEnd := by
  refine Gives.get fun r _ r' h => ?_
  cases hparents : r.parents with
  | nil =>
    rw [hparents] at h
    cases h
  | cons id parents =>
    rw [hparents] at h
    cases h
    exact ⟨rfl, trivial⟩

theorem keepsLimits_bool : KeepsLimits (ι := ι) bool := by
  refine Gives.get fun r b r' h => ?_
  have hbyte : KeepsLimits (ι := ι) (do return decide ((← readByte) = 1)) :=
    (Gives.onInput _).map _ fun _ _ h => h
  cases hpending : r.pendingBool with
  | none =>
    rw [hpending] at h
    exact hbyte r b r' h
  | some c =>
    rw [hpending] at h
    cases h
    exact ⟨rfl, trivial⟩

theorem keepsLimits_double : KeepsLimits (ι := ι) double := by
  refine (Gives.onInput _).bind fun bytes => ?_
  split
  · exact Gives.throw (α := UInt64) _
  · exact Gives.pure fun _ _ => trivial

theorem keepsLimits_binaryBytes : KeepsLimits (ι := ι) binaryBytes :=
  gives_readLength.bind fun _ => (Gives.onInput _).mono fun _ _ _ _ => trivial

end Reader

/-! ### Values -/

/-- The most elements of a value of the type, where lists and sets may have `n`. -/
def Limits.most (n : Nat) (limits : Limits) : WireType → Nat
  | .map => limits.maxContainer
  | _ => n

namespace Reader

variable {ι span : Type} [Input ι span] {α : Type}

/-- What a reader of values gives, if `Q` tells what the limits say of the parts. -/
abbrev GivesParts (Q : Limits → Value → Prop) (x : Reading ι Value) : Prop := Gives (fun l v => ∀ p ∈ v.parts, Q l p) x

/-- It holds of the values without bytes that have no more elements than a header can say. -/
def Bears (Q : Limits → Value → Prop) : Prop :=
  ∀ l v, v.byteLength = 0 → v.elementCount ≤ l.most (max 14 l.maxContainer) v.type → Q l v

theorem gives_replicate {P : Limits → α → Prop} {item : Reading ι α} (h : Gives P item) :
    ∀ count, Gives (fun l as => as.length = count ∧ ∀ a ∈ as, P l a) (replicate item count)
  | 0 => Gives.pure fun _ => ⟨rfl, List.forall_mem_nil _⟩
  | count + 1 => h.bind fun a => (gives_replicate h count).map (a :: ·) fun _ _ has ha =>
    ⟨congrArg Nat.succ has.1, List.forall_mem_cons.2 ⟨ha, has.2⟩⟩

variable {Q : Limits → Value → Prop}

theorem gives_fields {value : WireType → Reading ι Value} (h : ∀ type, GivesParts Q (value type)) :
    ∀ rounds, Gives (fun l fs => ∀ f ∈ fs, ∀ p ∈ f.2.parts, Q l p) (fields value rounds)
  | 0 => Gives.throw _
  | rounds + 1 => keepsLimits_fieldBegin.bind fun o => by
    cases o with
    | none => exact Gives.pure fun _ _ => List.forall_mem_nil _
    | some field =>
      refine ((h field.type).bind fun v => ?_).mono fun _ _ hfs _ => hfs
      exact (gives_fields h rounds).map ((field.id, v) :: ·) fun l fs hfs hv => List.forall_mem_cons.2 ⟨hv, hfs⟩

theorem gives_structOf {value : WireType → Reading ι Value} (h : ∀ type, GivesParts Q (value type)) (rounds : Nat) :
    Gives (fun l fs => ∀ f ∈ fs, ∀ p ∈ f.2.parts, Q l p) (structOf value rounds) := by
  refine keepsLimits_structBegin.bind fun _ => ?_
  refine ((gives_fields h rounds).bind fun fs => ?_).mono fun _ _ hfs _ => hfs
  exact keepsLimits_structEnd.map (fun _ => fs) fun l _ _ hfs => hfs

variable (hQ : Bears Q)
include hQ

/-- A value without bytes and elements. -/
theorem gives_leaf {x : Reading ι α} (hx : KeepsLimits x) {mk : α → Value}
    (hmk : ∀ a, (mk a).parts = [mk a] ∧ (mk a).byteLength = 0 ∧ (mk a).elementCount = 0) :
    GivesParts Q (do return mk (← x)) :=
  hx.map mk fun l a _ => by
    obtain ⟨hparts, hbytes, hcount⟩ := hmk a
    rw [hparts, List.forall_mem_singleton]
    exact hQ l _ hbytes (hcount ▸ Nat.zero_le _)

/-- A list or a set. -/
theorem gives_collectionOf {item : WireType → Reading ι Value} (h : ∀ type, GivesParts Q (item type))
    {mk : WireType → List Value → Value} (hparts : ∀ element vs, (mk element vs).parts = mk element vs :: Value.itemParts vs)
    (hbytes : ∀ element vs, (mk element vs).byteLength = 0)
    (hcount : ∀ element vs, (mk element vs).elementCount = vs.length)
    (hmap : ∀ element vs, (mk element vs).type ≠ .map) : GivesParts Q (collectionOf mk item) := by
  refine gives_collectionBegin.bind fun header => ?_
  refine (gives_replicate (h header.element) header.size).map (mk header.element) fun l vs hvs hsize => ?_
  rw [hparts, List.forall_mem_cons, Value.forall_mem_itemParts]
  refine ⟨hQ l _ (hbytes _ _) ?_, hvs.2⟩
  rw [hcount, hvs.1]
  -- the bound of the header is the one for lists and sets
  unfold Limits.most
  split
  · exact absurd ‹_› (hmap _ _)
  · exact hsize

theorem gives_mapOf {item : WireType → Reading ι Value} (h : ∀ type, GivesParts Q (item type)) :
    GivesParts Q (mapOf item) := by
  refine gives_mapBegin.bind fun header => ?_
  unfold entriesOf
  split
  · rename_i key value _ _
    have hentry : Gives (fun l (e : Value × Value) => (∀ p ∈ e.1.parts, Q l p) ∧ ∀ p ∈ e.2.parts, Q l p)
        (entryOf item key value) :=
      (h key).bind fun k => (h value).map (Prod.mk k) fun l v hv hk => ⟨hk, hv⟩
    refine (gives_replicate hentry header.size).map (Value.map key value) fun l es hes hsize => ?_
    rw [Value.parts, List.forall_mem_cons, Value.forall_mem_entryParts]
    refine ⟨hQ l _ rfl ?_, hes.2⟩
    show es.length ≤ l.maxContainer
    rw [hes.1]
    exact hsize
  · refine Gives.pure fun l _ => ?_
    rw [Value.parts, List.forall_mem_cons]
    exact ⟨hQ l _ rfl (Nat.zero_le _), List.forall_mem_nil _⟩

variable (hbinary : Gives (ι := ι) (fun l bytes => Q l (.binary bytes)) binaryBytes)
include hbinary

theorem gives_valueWithin (rounds : Nat) : ∀ levels type, GivesParts (ι := ι) Q (valueWithin rounds levels type)
  | 0, _ => Gives.get fun r v r' h => by cases h
  | levels + 1, type => by
    have ih := gives_valueWithin rounds levels
    unfold valueWithin
    cases type with
    | stop => exact Gives.throw _
    | bool => exact gives_leaf hQ keepsLimits_bool fun _ => ⟨rfl, rfl, rfl⟩
    | byte => exact gives_leaf hQ ((Gives.onInput _).map UInt8.toInt8 fun _ _ h => h) fun _ => ⟨rfl, rfl, rfl⟩
    | i16 => exact gives_leaf hQ keepsLimits_i16 fun _ => ⟨rfl, rfl, rfl⟩
    | i32 => exact gives_leaf hQ ((Gives.onInput _).map Int32.ofInt fun _ _ h => h) fun _ => ⟨rfl, rfl, rfl⟩
    | i64 => exact gives_leaf hQ ((Gives.onInput _).map Int64.ofInt fun _ _ h => h) fun _ => ⟨rfl, rfl, rfl⟩
    | double => exact gives_leaf hQ keepsLimits_double fun _ => ⟨rfl, rfl, rfl⟩
    | binary => exact hbinary.map Value.binary fun l bytes hbytes => List.forall_mem_singleton.2 hbytes
    | list => exact gives_collectionOf hQ ih (fun _ _ => rfl) (fun _ _ => rfl) (fun _ _ => rfl) fun _ _ => by simp [Value.type]
    | set => exact gives_collectionOf hQ ih (fun _ _ => rfl) (fun _ _ => rfl) (fun _ _ => rfl) fun _ _ => by simp [Value.type]
    | map => exact gives_mapOf hQ ih
    | struct =>
      refine (gives_structOf ih rounds).map Value.struct fun l fs hfs => ?_
      rw [Value.parts, List.forall_mem_cons, Value.forall_mem_fieldParts]
      exact ⟨hQ l _ rfl (Nat.zero_le _), hfs⟩

theorem gives_value (type : WireType) : GivesParts (ι := ι) Q (value type) :=
  Gives.get fun r v r' h => gives_valueWithin hQ hbinary r.rounds (r.limits.maxDepth + 1) type r v r' h

theorem gives_record : Gives (ι := ι) (fun l s => ∀ p ∈ s.parts, Q l p) record := by
  refine Gives.get fun r s r' h => ?_
  obtain ⟨hlimits, hfields⟩ := gives_structOf (gives_valueWithin hQ hbinary r.rounds r.limits.maxDepth) r.rounds r s r' h
  exact ⟨hlimits, Value.forall_mem_fieldParts.2 hfields⟩

end Reader

end CompactWire

import CompactWire.Proofs.Outcome
import CompactWire.Reader

/-!
# CompactWire.Proofs.Agreement — the same reading on two sides

Two inputs may present the same bytes in different ways, and what a reader makes of them must not depend on the way.
`Link` says what has to hold of single bytes and spans on both sides; `Agrees` says of an operation on each side that
from states that belong together both end well with results that belong together, or both fail with the same error.
This module has the rules for it and goes through the headers and single values; values follow in
`CompactWire.Proofs.AgreementValues`.

* The states are indexed by a number of bytes that both sides still have.  It bounds the loops over fields, whose
  rounds may differ between the sides.
* A link may let the second side give up with certain errors where the first goes on: at the end of its input, say, if
  it has less, or at its limits, if they are tighter.
* A link need not cover spans of every length: those of eight bytes, and those that the limits allow, are enough.
-/

namespace CompactWire

/-- How an operation ends on two sides: well on both, with the same error on both, or with the second side giving up. -/
inductive BothEnd {σ τ α β : Type} (good : α → σ → β → τ → Prop) (failed : Error → σ → τ → Prop)
    (givesUp : Error → Prop) : EStateM.Result Error σ α → EStateM.Result Error τ β → Prop
  | ok {a : α} {s : σ} {b : β} {t : τ} (h : good a s b t) : BothEnd good failed givesUp (.ok a s) (.ok b t)
  | error {e : Error} {s : σ} {t : τ} (h : failed e s t) : BothEnd good failed givesUp (.error e s) (.error e t)
  | gaveUp {o : EStateM.Result Error σ α} {e : Error} {t : τ} (h : givesUp e) :
    BothEnd good failed givesUp o (.error e t)

theorem BothEnd.imp {σ τ α β : Type} {good good' : α → σ → β → τ → Prop} {failed : Error → σ → τ → Prop}
    {givesUp : Error → Prop} {o : EStateM.Result Error σ α} {o' : EStateM.Result Error τ β}
    (h : BothEnd good failed givesUp o o') (hgood : ∀ a s b t, good a s b t → good' a s b t) :
    BothEnd good' failed givesUp o o' := by
  cases h with
  | ok h => exact .ok (hgood _ _ _ _ h)
  | error h => exact .error h
  | gaveUp h => exact .gaveUp h

/-- What belongs together on two sides. -/
structure Sides (σ τ : Type) where
  /-- The states from which both sides go on, with at least so many bytes to come. -/
  states : Nat → σ → τ → Prop
  /-- The states in which an error leaves both sides. -/
  failed : Error → σ → τ → Prop
  /-- The errors with which the second side may give up. -/
  givesUp : Error → Prop

/-- From states that belong together `x` and `y` end with results that do, and with `k` bytes less to come. -/
def Agrees {σ τ α β : Type} (S : Sides σ τ) (n k : Nat) (x : EStateM Error σ α) (y : EStateM Error τ β)
    (V : α → β → Prop) : Prop :=
  ∀ s t, S.states n s t →
    BothEnd (fun a s b t => V a b ∧ ∃ m, m + k ≤ n ∧ S.states m s t) S.failed S.givesUp (x s) (y t)

namespace Agrees

variable {σ τ α β γ δ : Type} {S : Sides σ τ} {n k l : Nat} {x : EStateM Error σ α} {y : EStateM Error τ β}
  {V : α → β → Prop}

/-! ### Rules -/

theorem pure {a : α} {b : β} (h : V a b) : Agrees S n 0 (pure a) (pure b) V :=
  fun _ _ hs => .ok ⟨h, n, Nat.le_refl n, hs⟩

theorem bind {f : α → EStateM Error σ γ} {g : β → EStateM Error τ δ} {W : γ → δ → Prop} (hx : Agrees S n k x y V)
    (hf : ∀ m a b, m + k ≤ n → V a b → Agrees S m 0 (f a) (g b) W) : Agrees S n k (x >>= f) (y >>= g) W := by
  intro s t hs
  have h := hx s t hs
  show BothEnd _ _ _ (EStateM.bind x f s) (EStateM.bind y g t)
  unfold EStateM.bind
  generalize x s = o at h ⊢
  generalize y t = o' at h ⊢
  cases h with
  | error h => exact .error h
  | gaveUp h => exact .gaveUp h
  | @ok a s b t h =>
    obtain ⟨hV, m, hm, hs'⟩ := h
    have h' := hf m a b hm hV s t hs'
    dsimp only
    generalize f a s = o at h' ⊢
    generalize g b t = o' at h' ⊢
    cases h' with
    | error h' => exact .error h'
    | gaveUp h' => exact .gaveUp h'
    | ok h' =>
      obtain ⟨hW, m', hm', hs''⟩ := h'
      exact .ok ⟨hW, m', by omega, hs''⟩

theorem mono {W : α → β → Prop} (hx : Agrees S n k x y V) (hl : l ≤ k) (hV : ∀ a b, V a b → W a b) :
    Agrees S n l x y W := by
  intro s t hs
  have h := hx s t hs
  generalize x s = o at h ⊢
  generalize y t = o' at h ⊢
  cases h with
  | error h => exact .error h
  | gaveUp h => exact .gaveUp h
  | ok h =>
    obtain ⟨hV', m, hm, hs'⟩ := h
    exact .ok ⟨hV _ _ hV', m, by omega, hs'⟩

/-- What takes some bytes takes none at least. -/
theorem weaken (hx : Agrees S n k x y V) : Agrees S n 0 x y V := hx.mono (Nat.zero_le k) fun _ _ h => h

/-- The operation goes on with the same result on both sides. -/
theorem andThen {y : EStateM Error τ α} {f : α → EStateM Error σ γ} {g : α → EStateM Error τ δ} {W : γ → δ → Prop}
    (hx : Agrees S n k x y Eq) (hf : ∀ m a, m + k ≤ n → Agrees S m 0 (f a) (g a) W) :
    Agrees S n k (x >>= f) (y >>= g) W :=
  hx.bind fun m a _ hm h => h ▸ hf m a hm

theorem map {y : EStateM Error τ α} (hx : Agrees S n k x y Eq) (g : α → γ) :
    Agrees S n k (do return g (← x)) (do return g (← y)) Eq :=
  hx.andThen fun _ _ _ => Agrees.pure rfl

theorem fail {e : Error} (h : ∀ s t, S.states n s t → S.failed e s t) : Agrees S n k (throw e) (throw e) V :=
  fun s t hs => .error (h s t hs)

theorem giveUp {e : Error} (h : S.givesUp e) : Agrees S n k x (throw e) V := fun _ _ _ => .gaveUp h

/-- The operation goes on with a look at its state. -/
theorem get {f : σ → EStateM Error σ γ} {g : τ → EStateM Error τ δ} {W : γ → δ → Prop}
    (hf : ∀ s t, S.states n s t → Agrees S n k (f s) (g t) W) : Agrees S n k (get >>= f) (get >>= g) W :=
  fun s t hs => hf s t hs s t hs

theorem set {s' : σ} {t' : τ} (h : S.states n s' t') : Agrees S n 0 (set s') (set t') Eq :=
  fun _ _ _ => .ok ⟨rfl, n, Nat.le_refl n, h⟩

end Agrees

/-! ### Inputs and readers -/

/-- A bound of the second side is that of the first, or it is tighter and the second side may give up at it. -/
def Tightens (mayGiveUp : Prop) (large small : Nat) : Prop := small = large ∨ (small ≤ large ∧ mayGiveUp)

theorem Tightens.le {mayGiveUp : Prop} {large small : Nat} (h : Tightens mayGiveUp large small) : small ≤ large := by
  rcases h with h | ⟨h, -⟩ <;> omega

/-- The second side may give up at a length or a size. -/
def GivesUpAtLength (givesUp : Error → Prop) : Prop := ∀ found max, givesUp (.lengthExceeded found max)

/-- The second side may give up at the depth that its limits set. -/
def GivesUpAtDepth (limits : Limits → Limits → Prop) (givesUp : Error → Prop) : Prop :=
  ∀ l l', limits l l' → givesUp (.depthExceeded l'.maxDepth)

/-- The longest span that a string or a binary makes a reader ask for: a length that is declared has 32 bits. -/
def Limits.longest (l : Limits) : Nat := min l.maxString (UInt32.size - 1)

/-- Two kinds of inputs on which reading agrees. -/
structure Link (ι κ : Type) {s t : Type} [Input ι s] [Input κ t] extends Sides ι κ where
  /-- The limits on both sides. -/
  limits : Limits → Limits → Prop
  /-- The lengths of the spans that are looked at. -/
  covers : Nat → Prop := fun _ => True
  remaining {n : Nat} {i : ι} {j : κ} : states n i j → n ≤ Input.remaining i ∧ n ≤ Input.remaining j
  failed_of_ne {n : Nat} {i : ι} {j : κ} {e : Error} : e ≠ .endOfInput → states n i j → failed e i j
  readByte (n : Nat) : Agrees toSides n 1 Input.readByte Input.readByte Eq
  readSpan {n : Nat} {i : ι} {j : κ} (length : Nat) : covers length → states n i j →
    BothEnd (fun a i b j => Input.bytes ι a = Input.bytes κ b ∧
      ∃ m, m ≤ n ∧ states m (Input.release a i) (Input.release b j)) failed givesUp
      (Input.readSpan length i) (Input.readSpan length j)
  tightens {l l' : Limits} : limits l l' → Tightens (GivesUpAtLength givesUp) l.maxString l'.maxString ∧
    Tightens (GivesUpAtLength givesUp) l.maxContainer l'.maxContainer ∧
    Tightens (GivesUpAtDepth limits givesUp) l.maxDepth l'.maxDepth
  covers_eight : covers 8 := by trivial
  covers_length {l l' : Limits} : limits l l' → ∀ length ≤ l'.longest, covers length := by
    intros
    trivial

namespace Link

variable {ι κ s t : Type} [Input ι s] [Input κ t] (L : Link ι κ)

/-- Readers that differ in their inputs and limits only. -/
structure Linked (inputs : ι → κ → Prop) (r : Reader ι) (r' : Reader κ) : Prop where
  input : inputs r.input r'.input
  limits : L.limits r.limits r'.limits
  parents : r.parents = r'.parents
  lastId : r.lastId = r'.lastId
  pendingBool : r.pendingBool = r'.pendingBool

/-- The readers that belong together. -/
def readers : Sides (Reader ι) (Reader κ) where
  states n := L.Linked (L.states n)
  failed e := L.Linked (L.failed e)
  givesUp := L.givesUp

/-- Readings of `k` bytes at least with the same result. -/
abbrev SameReading {α : Type} (n k : Nat) (x : Reading ι α) (y : Reading κ α) : Prop := Agrees L.readers n k x y Eq

variable {L} {α β : Type} {n k : Nat}

theorem Linked.depth {inputs : ι → κ → Prop} {r : Reader ι} {r' : Reader κ} (h : L.Linked inputs r r') :
    r.depth = r'.depth := congrArg List.length h.parents

theorem fail {V : α → β → Prop} {e : Error} (he : e ≠ .endOfInput) : Agrees L.readers n k (throw e) (throw e) V :=
  Agrees.fail fun _ _ h => { h with input := L.failed_of_ne he h.input }

/-- What would follow an error does not matter. -/
theorem failBefore {γ δ : Type} {V : α → β → Prop} {e : Error} {f : γ → Reading ι α} {g : δ → Reading κ β}
    (he : e ≠ .endOfInput) : Agrees L.readers n k (throw e >>= f) (throw e >>= g) V :=
  fail (V := V) he

theorem giveUpBefore {δ : Type} {V : α → β → Prop} {e : Error} {x : Reading ι α} {g : δ → Reading κ β}
    (he : L.givesUp e) : Agrees L.readers n k x (throw e >>= g) V :=
  Agrees.giveUp (S := L.readers) (V := V) he

theorem onInput {x : EStateM Error ι α} {y : EStateM Error κ β} {V : α → β → Prop}
    (h : Agrees L.toSides n k x y V) : Agrees L.readers n k (Reader.onInput x) (Reader.onInput y) V := by
  intro r r' hr
  have h := h _ _ hr.input
  unfold Reader.onInput
  generalize x r.input = o at h ⊢
  generalize y r'.input = o' at h ⊢
  cases h with
  | error h => exact .error { hr with input := h }
  | gaveUp h => exact .gaveUp h
  | ok h =>
    obtain ⟨hV, m, hm, hs⟩ := h
    exact .ok ⟨hV, m, hm, { hr with input := hs }⟩

variable (L)

/-! ### Single values -/

theorem agrees_readByte : L.SameReading n 1 Reader.readByte Reader.readByte := onInput (L.readByte n)

/-- A number of so many groups has as many bits at most. -/
theorem agrees_readGroups (top : Nat) : ∀ (groups n : Nat),
    Agrees L.toSides n 1 (Varint.readGroups top groups) (Varint.readGroups top groups)
      (fun a b => a = b ∧ b < 1 <<< (7 * groups + top))
  | 0, n => (L.readByte n).andThen fun m byte _ => by
    split
    · rename_i hbyte
      exact Agrees.pure ⟨rfl, by simpa using hbyte⟩
    · exact Agrees.fail fun _ _ h => L.failed_of_ne (by simp) h
  | groups + 1, n => (L.readByte n).andThen fun m byte _ => by
    have hbits : 1 <<< (7 * (groups + 1) + top) = 128 * 1 <<< (7 * groups + top) := by
      rw [Nat.one_shiftLeft, Nat.one_shiftLeft, Nat.mul_add, Nat.add_right_comm, Nat.pow_add, Nat.mul_comm]
    have hpos : 0 < 1 <<< (7 * groups + top) := by
      rw [Nat.one_shiftLeft]
      exact Nat.two_pow_pos _
    split
    · exact Agrees.pure ⟨rfl, by omega⟩
    · refine (((agrees_readGroups top groups m).bind fun _ a b _ hab => ?_) : Agrees _ m 1 _ _ _).weaken
      obtain ⟨rfl, hlt⟩ := hab
      have hbyte := byte.toNat_lt
      exact Agrees.pure ⟨rfl, by omega⟩

theorem agrees_read (w : Varint.Width) : Agrees L.toSides n 1 (Varint.read w) (Varint.read w) Eq :=
  (L.agrees_readGroups w.top w.groups n).mono (Nat.le_refl 1) fun _ _ h => h.1

theorem agrees_varint (w : Varint.Width) :
    L.SameReading n 1 (Reader.onInput (Varint.read w)) (Reader.onInput (Varint.read w)) := onInput (L.agrees_read w)

theorem agrees_signed (w : Varint.Width) :
    L.SameReading n 1 (Reader.onInput (Varint.readSigned w)) (Reader.onInput (Varint.readSigned w)) :=
  onInput ((L.agrees_read w).map Varint.unzigzag)

theorem agrees_span {length : Nat} (hlength : L.covers length) :
    Agrees L.toSides n 0 (Input.withSpan length) (Input.withSpan length) Eq := by
  intro i j h
  have h := L.readSpan length hlength h
  show BothEnd _ _ _ (EStateM.bind (Input.readSpan length) _ i) (EStateM.bind (Input.readSpan length) _ j)
  unfold EStateM.bind
  generalize Input.readSpan length i = o at h ⊢
  generalize Input.readSpan length j = o' at h ⊢
  cases h with
  | error h => exact .error h
  | gaveUp h => exact .gaveUp h
  | ok h =>
    obtain ⟨hV, m, hm, hs⟩ := h
    exact .ok ⟨hV, m, hm, hs⟩

theorem agrees_withSpan {length : Nat} (hlength : L.covers length) :
    L.SameReading n 0 (Reader.onInput (Input.withSpan length)) (Reader.onInput (Input.withSpan length)) :=
  onInput (L.agrees_span hlength)

theorem agrees_typeOf (code : Nat) : L.SameReading n 0 (Reader.typeOf code) (Reader.typeOf code) := by
  unfold Reader.typeOf
  split
  · exact Agrees.pure rfl
  · exact fail (by simp)

/-- The check of a length or size that was read.  What goes on with it may rely on `P`. -/
theorem agrees_checked {max : Limits → Nat} {P : Nat → Prop}
    (hmax : ∀ l l', L.limits l l' → Tightens (GivesUpAtLength L.givesUp) (max l) (max l')) (m : Nat)
    (hP : ∀ l l', L.limits l l' → m ≤ max l' → P m) : Agrees L.readers n 0
      (do let r ← get; if max r.limits < m then throw (.lengthExceeded m (max r.limits)) else return m)
      (do let r ← get; if max r.limits < m then throw (.lengthExceeded m (max r.limits)) else return m)
      (fun a b => a = b ∧ P b) := by
  refine Agrees.get fun r r' hr => ?_
  have ht := hmax _ _ hr.limits
  have hle := ht.le
  by_cases h' : max r'.limits < m
  · rw [if_pos h']
    rcases ht with ht | ⟨-, hgive⟩
    · rw [← ht, if_pos h']
      exact fail (by simp)
    · exact Agrees.giveUp (hgive _ _)
  · rw [if_neg h', if_neg (by omega)]
    exact Agrees.pure ⟨rfl, hP _ _ hr.limits (Nat.not_lt.1 h')⟩

theorem agrees_readLength :
    Agrees L.readers n 1 Reader.readLength Reader.readLength (fun a b => a = b ∧ L.covers b) :=
  (onInput (L.agrees_readGroups 4 4 n)).bind fun _ m m' _ hm => by
    obtain ⟨rfl, hbits⟩ := hm
    have hsize : m ≤ UInt32.size - 1 := Nat.le_pred_of_lt hbits
    exact L.agrees_checked (fun _ _ h => (L.tightens h).1) m fun _ _ h hle =>
      L.covers_length h m (Nat.le_min.2 ⟨hle, hsize⟩)

theorem agrees_readSize : L.SameReading n 1 Reader.readSize Reader.readSize :=
  (L.agrees_varint .w32).andThen fun _ m _ =>
    (L.agrees_checked (P := fun _ => True) (fun _ _ h => (L.tightens h).2.1) m fun _ _ _ _ => trivial).mono
      (Nat.le_refl 0) fun _ _ h => h.1

/-- What goes on with a length may rely on its being covered. -/
theorem measured {f : Nat → Reading ι α} {g : Nat → Reading κ β} {W : α → β → Prop}
    (h : ∀ m length, L.covers length → Agrees L.readers m 0 (f length) (g length) W) :
    Agrees L.readers n 1 (Reader.readLength >>= f) (Reader.readLength >>= g) W := by
  refine L.agrees_readLength.bind fun m length length' _ hlength => ?_
  obtain ⟨rfl, hcovers⟩ := hlength
  exact h m length hcovers

/-- A boolean takes a byte unless one is pending. -/
theorem agrees_bool : L.SameReading n 0 Reader.bool Reader.bool := by
  refine Agrees.get fun r r' hr => ?_
  rw [← hr.pendingBool]
  cases hp : r.pendingBool with
  | none => exact (L.agrees_readByte.weaken).map fun b => decide (b = 1)
  | some b =>
    have hs : L.readers.states n { r with pendingBool := none } { r' with pendingBool := none } :=
      { hr with pendingBool := rfl }
    exact (Agrees.set hs).andThen fun _ _ _ => Agrees.pure rfl

theorem agrees_byte : L.SameReading n 1 Reader.byte Reader.byte := L.agrees_readByte.map UInt8.toInt8

theorem agrees_i32 : L.SameReading n 1 Reader.i32 Reader.i32 := (L.agrees_signed .w32).map Int32.ofInt

theorem agrees_i16 : L.SameReading n 1 Reader.i16 Reader.i16 := L.agrees_i32.map Int32.toInt16

theorem agrees_i64 : L.SameReading n 1 Reader.i64 Reader.i64 := (L.agrees_signed .w64).map Int64.ofInt

theorem agrees_double : L.SameReading n 0 Reader.double Reader.double :=
  (L.agrees_withSpan L.covers_eight).andThen fun _ bytes _ => by
    split
    · exact failBefore (by simp)
    · exact Agrees.pure rfl

theorem agrees_string : L.SameReading n 1 Reader.string Reader.string :=
  L.measured fun _ length hlength => by
    split
    · exact Agrees.pure rfl
    · refine (L.agrees_withSpan hlength).andThen fun _ bytes _ => ?_
      split
      · exact Agrees.pure rfl
      · exact fail (by simp)

theorem agrees_binaryBytes : L.SameReading n 1 Reader.binaryBytes Reader.binaryBytes :=
  L.measured fun _ _ hlength => L.agrees_withSpan hlength

/-! ### Headers -/

theorem agrees_fieldId (step : Nat) : L.SameReading n 0 (Reader.fieldId step) (Reader.fieldId step) := by
  unfold Reader.fieldId
  split
  · exact L.agrees_i16.weaken
  · refine Agrees.get fun r r' hr => ?_
    rw [hr.lastId]
    exact Agrees.pure rfl

theorem agrees_mapBegin : L.SameReading n 1 Reader.mapBegin Reader.mapBegin :=
  L.agrees_readSize.andThen fun _ size _ => by
    split
    · exact Agrees.pure rfl
    · exact L.agrees_readByte.weaken.andThen fun _ _ _ => (L.agrees_typeOf _).andThen fun _ key _ =>
        (L.agrees_typeOf _).map fun val => MapHeader.mk (some key) (some val) size

theorem agrees_collectionSize (packed : Nat) :
    L.SameReading n 0 (Reader.collectionSize packed) (Reader.collectionSize packed) := by
  unfold Reader.collectionSize
  split
  · exact L.agrees_readSize.weaken
  · exact Agrees.pure rfl

theorem agrees_collectionBegin : L.SameReading n 1 Reader.collectionBegin Reader.collectionBegin :=
  L.agrees_readByte.andThen fun _ _ _ => (L.agrees_typeOf _).andThen fun _ element _ =>
    (L.agrees_collectionSize _).map (CollectionHeader.mk element)

theorem agrees_fieldBegin : L.SameReading n 1 Reader.fieldBegin Reader.fieldBegin := by
  refine L.agrees_readByte.andThen fun _ b _ => ?_
  dsimp only
  split
  · exact Agrees.pure rfl
  · refine (L.agrees_typeOf _).andThen fun _ type _ => ?_
    split
    · exact failBefore (by simp)
    · refine (L.agrees_fieldId _).andThen fun m id _ => Agrees.get fun r r' hr => ?_
      let flag (pending : Option Bool) := if type = .bool then some (decide (b.toNat % 16 = 1)) else pending
      have hs : L.readers.states m { r with lastId := id, pendingBool := flag r.pendingBool }
          { r' with lastId := id, pendingBool := flag r'.pendingBool } :=
        { hr with lastId := rfl, pendingBool := congrArg flag hr.pendingBool }
      exact (Agrees.set hs).andThen fun _ _ _ => Agrees.pure rfl

theorem agrees_messageBegin : L.SameReading n 1 Reader.messageBegin Reader.messageBegin := by
  refine L.agrees_readByte.andThen fun _ protocol _ => ?_
  split
  · exact failBefore (by simp)
  · refine (L.agrees_readByte.weaken).andThen fun _ b _ => ?_
    dsimp only
    split
    · exact failBefore (by simp)
    · exact (L.agrees_varint .w32).weaken.andThen fun _ seqId _ => L.agrees_string.weaken.map fun name =>
        MessageHeader.mk name (b.toNat / 32 % 4) (Int32.ofNat seqId)

theorem agrees_structBegin : L.SameReading n 0 Reader.structBegin Reader.structBegin := by
  refine Agrees.get fun r r' hr => ?_
  have ht := (L.tightens hr.limits).2.2
  have hle := ht.le
  rw [hr.depth]
  by_cases h' : r'.limits.maxDepth ≤ r'.depth
  · rw [if_pos h']
    rcases ht with ht | ⟨-, hgive⟩
    · rw [← ht, if_pos h']
      exact failBefore (by simp)
    · exact giveUpBefore (hgive _ _ hr.limits)
  · rw [if_neg h', if_neg (by omega)]
    have hs : L.readers.states n { r with parents := r.lastId :: r.parents, lastId := 0 }
        { r' with parents := r'.lastId :: r'.parents, lastId := 0 } :=
      { hr with parents := by rw [hr.lastId, hr.parents], lastId := rfl }
    exact Agrees.set hs

theorem agrees_structEnd : L.SameReading n 0 Reader.structEnd Reader.structEnd := by
  refine Agrees.get fun r r' hr => ?_
  rw [hr.parents]
  split
  · exact fail (by simp)
  · rename_i id parents _
    have hs : L.readers.states n { r with parents, lastId := id } { r' with parents, lastId := id } :=
      { hr with parents := rfl, lastId := rfl }
    exact Agrees.set hs

end Link

end CompactWire

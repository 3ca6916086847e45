import CompactWire.Proofs.AgreementValues
import CompactWire.Reader.Gates
import Mathlib.Data.List.Forall2

/-!
# CompactWire.Proofs.Coupling — a reading session beside another

An input may be watched: a record is kept with it, or its steps are made with every check written out.  A `Coupling`
says what a watched input shares with the input that it stands for: the number of bytes to come, and the outcome of
every byte and every span.  Then readers over the two go the same way in all calls and sessions (`run`, `session`), and
what the coupling says of the inputs holds wherever a call ends.

Unlike a `Link`, a coupling holds of inputs of any kind: it says nothing about how many bytes are left, so the loops
over fields make the same rounds on both sides.  Three things are particular to it.

* Spans are asked for with a length that the limits allow, or of eight bytes.
* The inputs belong together with regard to the structs that are open, so a coupling can say what a record of the
  structs has to do with them.  On the first side structs are opened and closed through gates.
* `failed` lists the errors that may come.  A reader's own errors are among them, but for the one about a span that
  came with another length.
-/

namespace CompactWire

open Reader (Gates)

/-- A reader's own error: it is not about a span that came with another length, and no call was broken off. -/
@[simp] def Error.Own (e : Error) : Prop :=
  (∀ expected actual, e ≠ .assembledLength expected actual) ∧ ∀ reason, e ≠ .aborted reason

/-- A watched input beside the one that it stands for, under readers with the given limits. -/
structure Coupling (limits : Limits) (κ ι : Type) {t s : Type} [Input κ t] [Input ι s] where
  /-- The inputs that belong together while structs with these ids around them are open. -/
  inputs : List Int16 → κ → ι → Prop
  /-- The errors that may come. -/
  failed : Error → Prop
  failed_own {e : Error} (h : e.Own) : failed e
  remaining {parents : List Int16} {i : κ} {j : ι} (h : inputs parents i j) : Input.remaining i = Input.remaining j
  readByte {parents : List Int16} {i : κ} {j : ι} (h : inputs parents i j) :
    BothEnd (fun b i c j => b = c ∧ inputs parents i j) (fun e i j => failed e ∧ inputs parents i j) (fun _ => False)
      (Input.readByte i) (Input.readByte j)
  readSpan {parents : List Int16} {i : κ} {j : ι} {length : Nat} (hlength : length ≤ max 8 limits.maxString)
    (h : inputs parents i j) :
    BothEnd
      (fun a i b j => Input.bytes κ a = Input.bytes ι b ∧ Input.borrowed κ a = Input.borrowed ι b ∧
        ((Input.bytes ι b).length ≠ length → failed (.assembledLength length (Input.bytes ι b).length)) ∧
        inputs parents (Input.release a i) (Input.release b j))
      (fun e i j => failed e ∧ inputs parents i j) (fun _ => False) (Input.readSpan length i) (Input.readSpan length j)

namespace Coupling

variable {limits : Limits} {κ ι t s : Type} [Input κ t] [Input ι s] (C : Coupling limits κ ι)

/-- Readers that differ in their inputs only. -/
structure Coupled (r : Reader κ) (r' : Reader ι) : Prop where
  input : C.inputs r'.parents r.input r'.input
  left_limits : r.limits = limits
  right_limits : r'.limits = limits
  parents : r.parents = r'.parents
  lastId : r.lastId = r'.lastId
  pendingBool : r.pendingBool = r'.pendingBool

/-- The readers that belong together, also behind an error. -/
def readers : Sides (Reader κ) (Reader ι) where
  states _ := C.Coupled
  failed e r r' := C.failed e ∧ C.Coupled r r'
  givesUp _ := False

/-- The inputs that belong together, also behind an error. -/
def sides (parents : List Int16) : Sides κ ι where
  states _ := C.inputs parents
  failed e i j := C.failed e ∧ C.inputs parents i j
  givesUp _ := False

/-- Readings with the same outcome. -/
def Same {α : Type} (x : Reading κ α) (y : Reading ι α) : Prop := ∀ n, Agrees C.readers n 0 x y Eq

/-- Operations of the inputs with the same outcome. -/
def SameOn {α : Type} (x : EStateM Error κ α) (y : EStateM Error ι α) : Prop :=
  ∀ parents n, Agrees (C.sides parents) n 0 x y Eq

variable {C} {α β : Type}

/-! ### Rules -/

namespace Same

variable {x : Reading κ α} {y : Reading ι α}

theorem pure (a : α) : C.Same (pure a) (pure a) := fun _ => Agrees.pure rfl

theorem andThen {f : α → Reading κ β} {g : α → Reading ι β} (hx : C.Same x y) (hf : ∀ a, C.Same (f a) (g a)) :
    C.Same (x >>= f) (y >>= g) := fun n => (hx n).andThen fun m a _ => hf a m

theorem map (hx : C.Same x y) (g : α → β) : C.Same (do return g (← x)) (do return g (← y)) :=
  hx.andThen fun a => Same.pure (g a)

theorem throw {e : Error} (he : e.Own) : C.Same (throw e : Reading κ α) (throw e) :=
  fun _ => Agrees.fail fun _ _ h => ⟨C.failed_own he, h⟩

/-- What would follow an error does not matter. -/
theorem throwBefore {e : Error} {f : α → Reading κ β} {g : α → Reading ι β} (he : e.Own) :
    C.Same (MonadExcept.throw e >>= f) (MonadExcept.throw e >>= g) := throw he

theorem get {f : Reader κ → Reading κ α} {g : Reader ι → Reading ι α}
    (h : ∀ r r', C.Coupled r r' → C.Same (f r) (g r')) : C.Same (get >>= f) (get >>= g) :=
  fun n => Agrees.get fun r r' hr => h r r' hr n

theorem set {r : Reader κ} {r' : Reader ι} (h : C.Coupled r r') : C.Same (set r) (set r') :=
  fun _ => Agrees.set h

theorem onInput {x : EStateM Error κ α} {y : EStateM Error ι α} (h : C.SameOn x y) :
    C.Same (Reader.onInput x) (Reader.onInput y) := by
  intro n r r' hr
  have h := h r'.parents n r.input r'.input hr.input
  unfold Reader.onInput
  generalize x r.input = o at h ⊢
  generalize y r'.input = o' at h ⊢
  cases h with
  | error h => exact .error ⟨h.1, { hr with input := h.2 }⟩
  | gaveUp h => exact h.elim
  | ok h =>
    obtain ⟨hV, m, hm, hs⟩ := h
    exact .ok ⟨hV, m, hm, { hr with input := hs }⟩

end Same

theorem Coupled.depth {r : Reader κ} {r' : Reader ι} (h : C.Coupled r r') : r.depth = r'.depth :=
  congrArg List.length h.parents

theorem Coupled.rounds {r : Reader κ} {r' : Reader ι} (h : C.Coupled r r') : r.rounds = r'.rounds :=
  congrArg (· + 1) (C.remaining h.input)

variable (C)

/-! ### Single values -/

theorem sameOn_readByte : C.SameOn Input.readByte Input.readByte := fun parents n i j h => by
  have hbyte := C.readByte h
  generalize (Input.readByte i : EStateM.Result Error κ UInt8) = o at hbyte ⊢
  generalize (Input.readByte j : EStateM.Result Error ι UInt8) = o' at hbyte ⊢
  cases hbyte with
  | error h => exact .error h
  | gaveUp h => exact h.elim
  | ok h => exact .ok ⟨h.1, n, Nat.le_refl n, h.2⟩

theorem same_readByte : C.Same Reader.readByte Reader.readByte := .onInput C.sameOn_readByte

theorem sameOn_readGroups (top : Nat) :
    ∀ groups, C.SameOn (Varint.readGroups top groups) (Varint.readGroups top groups)
  | 0, parents, n => (C.sameOn_readByte parents n).andThen fun m byte _ => by
    split
    · exact Agrees.pure rfl
    · exact Agrees.fail fun _ _ h => ⟨C.failed_own (by simp), h⟩
  | groups + 1, parents, n => (C.sameOn_readByte parents n).andThen fun m byte _ => by
    split
    · exact Agrees.pure rfl
    · exact (sameOn_readGroups top groups parents m).map _

theorem same_varint (w : Varint.Width) :
    C.Same (Reader.onInput (Varint.read w)) (Reader.onInput (Varint.read w)) :=
  .onInput (C.sameOn_readGroups w.top w.groups)

theorem same_signed (w : Varint.Width) :
    C.Same (Reader.onInput (Varint.readSigned w)) (Reader.onInput (Varint.readSigned w)) :=
  .onInput fun parents n => (C.sameOn_readGroups w.top w.groups parents n).map Varint.unzigzag

/-- A span comes with the length that was asked for, or the other length may be complained of. -/
theorem agrees_withSpan {length : Nat} (hlength : length ≤ max 8 limits.maxString) (n : Nat) :
    Agrees C.readers n 0 (Reader.onInput (Input.withSpan length)) (Reader.onInput (Input.withSpan length))
      (fun a b => a = b ∧ (b.length ≠ length → C.failed (.assembledLength length b.length))) := by
  intro r r' hr
  have h := C.readSpan hlength hr.input
  unfold Reader.onInput Input.withSpan
  simp only [bind, EStateM.bind]
  generalize (Input.readSpan length r.input : EStateM.Result Error κ t) = o at h ⊢
  generalize (Input.readSpan length r'.input : EStateM.Result Error ι s) = o' at h ⊢
  cases h with
  | error h => exact .error ⟨h.1, { hr with input := h.2 }⟩
  | gaveUp h => exact h.elim
  | ok h =>
    obtain ⟨hbytes, -, hcomplain, hinputs⟩ := h
    exact .ok ⟨⟨hbytes, hcomplain⟩, n, Nat.le_refl n, { hr with input := hinputs }⟩

theorem same_withSpan {length : Nat} (hlength : length ≤ max 8 limits.maxString) :
    C.Same (Reader.onInput (Input.withSpan length)) (Reader.onInput (Input.withSpan length)) :=
  fun n => (C.agrees_withSpan hlength n).mono (Nat.le_refl 0) fun _ _ h => h.1

theorem same_typeOf (code : Nat) : C.Same (Reader.typeOf code) (Reader.typeOf code) := by
  unfold Reader.typeOf
  split
  · exact .pure _
  · exact .throw (by simp)

/-- A length is within the limits, and what goes on with it may rely on that. -/
theorem same_measured {f : Nat → Reading κ α} {g : Nat → Reading ι α}
    (h : ∀ length ≤ limits.maxString, C.Same (f length) (g length)) :
    C.Same (Reader.readLength >>= f) (Reader.readLength >>= g) := by
  intro n
  refine Agrees.bind (V := fun a b => a = b ∧ b ≤ limits.maxString)
    ((C.same_varint .w32 n).andThen fun m length _ => Agrees.get fun r r' hr => ?_) ?_
  · rw [hr.left_limits, hr.right_limits]
    dsimp only
    split
    · exact Agrees.fail (S := C.readers) fun _ _ hr => ⟨C.failed_own (by simp), hr⟩
    · exact Agrees.pure ⟨rfl, Nat.not_lt.1 ‹_›⟩
  · rintro m _ length _ ⟨rfl, hlength⟩
    exact h _ hlength m

theorem same_readSize : C.Same Reader.readSize Reader.readSize :=
  (C.same_varint .w32).andThen fun size => .get fun r r' hr => by
    rw [hr.left_limits, hr.right_limits]
    dsimp only
    split
    · exact .throwBefore (by simp)
    · exact .pure size

theorem same_bool : C.Same Reader.bool Reader.bool := .get fun r r' hr => by
  rw [← hr.pendingBool]
  cases r.pendingBool with
  | none => exact C.same_readByte.map fun b => decide (b = 1)
  | some b =>
    have hs : C.Coupled { r with pendingBool := none } { r' with pendingBool := none } :=
      { hr with pendingBool := rfl }
    exact (Same.set hs).andThen fun _ => .pure b

theorem same_byte : C.Same Reader.byte Reader.byte := C.same_readByte.map UInt8.toInt8

theorem same_i32 : C.Same Reader.i32 Reader.i32 := (C.same_signed .w32).map Int32.ofInt

theorem same_i16 : C.Same Reader.i16 Reader.i16 := C.same_i32.map Int32.toInt16

theorem same_i64 : C.Same Reader.i64 Reader.i64 := (C.same_signed .w64).map Int64.ofInt

theorem same_double : C.Same Reader.double Reader.double := fun n =>
  (C.agrees_withSpan (Nat.le_max_left 8 _) n).bind fun m _ bytes _ => by
    rintro ⟨rfl, hcomplain⟩
    split
    · rename_i hne
      exact Agrees.fail (S := C.readers) fun _ _ h => ⟨hcomplain hne, h⟩
    · exact Agrees.pure rfl

theorem same_string : C.Same Reader.string Reader.string :=
  C.same_measured fun length hlength => by
    split
    · exact .pure ""
    · refine (C.same_withSpan (Nat.le_trans hlength (Nat.le_max_right _ _))).andThen fun bytes => ?_
      split
      · exact .pure _
      · exact .throw (by simp)

theorem same_binaryBytes : C.Same Reader.binaryBytes Reader.binaryBytes :=
  C.same_measured fun _ hlength => C.same_withSpan (Nat.le_trans hlength (Nat.le_max_right _ _))

/-! ### Headers -/

theorem same_fieldId (step : Nat) : C.Same (Reader.fieldId step) (Reader.fieldId step) := by
  unfold Reader.fieldId
  split
  · exact C.same_i16
  · refine .get fun r r' hr => ?_
    rw [hr.lastId]
    exact .pure _

theorem same_mapBegin : C.Same Reader.mapBegin Reader.mapBegin :=
  C.same_readSize.andThen fun size => by
    split
    · exact .pure _
    · exact C.same_readByte.andThen fun _ => (C.same_typeOf _).andThen fun key => (C.same_typeOf _).map fun val =>
        MapHeader.mk (some key) (some val) size

theorem same_collectionBegin : C.Same Reader.collectionBegin Reader.collectionBegin :=
  C.same_readByte.andThen fun b => (C.same_typeOf _).andThen fun element => by
    unfold Reader.collectionSize
    split
    · exact C.same_readSize.map (CollectionHeader.mk element)
    · exact .pure _

theorem same_fieldBegin : C.Same Reader.fieldBegin Reader.fieldBegin :=
  C.same_readByte.andThen fun b => by
    dsimp only
    split
    · exact .pure none
    · refine (C.same_typeOf _).andThen fun type => ?_
      split
      · exact .throwBefore (by simp)
      · refine (C.same_fieldId _).andThen fun id => .get fun r r' hr => ?_
        let flag (pending : Option Bool) := if type = .bool then some (decide (b.toNat % 16 = 1)) else pending
        have hs : C.Coupled { r with lastId := id, pendingBool := flag r.pendingBool }
            { r' with lastId := id, pendingBool := flag r'.pendingBool } :=
          { hr with lastId := rfl, pendingBool := congrArg flag hr.pendingBool }
        exact (Same.set hs).andThen fun _ => .pure (some (FieldHeader.mk id type))

theorem same_messageBegin : C.Same Reader.messageBegin Reader.messageBegin :=
  C.same_readByte.andThen fun protocol => by
    split
    · exact .throwBefore (by simp)
    · refine C.same_readByte.andThen fun b => ?_
      dsimp only
      split
      · exact .throwBefore (by simp)
      · exact (C.same_varint .w32).andThen fun seqId => C.same_string.map fun name =>
          MessageHeader.mk name (b.toNat / 32 % 4) (Int32.ofNat seqId)

/-! ### Structs -/

/-- Where what is open makes no difference to the inputs, the calls themselves can be the gates. -/
theorem same_plain (h : ∀ {parents parents' : List Int16} {i : κ} {j : ι}, C.inputs parents i j → C.inputs parents' i j) :
    C.Same Gates.plain.enter Reader.structBegin ∧ C.Same Gates.plain.leave Reader.structEnd := by
  constructor
  · refine .get fun r r' hr => ?_
    rw [hr.depth, hr.left_limits, hr.right_limits]
    split
    · exact .throwBefore (by simp)
    · have hs : C.Coupled { r with parents := r.lastId :: r.parents, lastId := 0 }
          { r' with parents := r'.lastId :: r'.parents, lastId := 0 } :=
        { hr with input := h hr.input, parents := by rw [hr.lastId, hr.parents], lastId := rfl }
      rw [hr.left_limits, hr.right_limits] at hs
      exact .set hs
  · refine .get fun r r' hr => ?_
    rw [hr.parents]
    split
    · exact .throw (by simp)
    · rename_i id parents _
      have hs : C.Coupled { r with parents, lastId := id } { r' with parents, lastId := id } :=
        { hr with input := h hr.input, parents := rfl, lastId := rfl }
      exact .set hs

/-! ### Loops -/

theorem same_replicate {item : Reading κ α} {item' : Reading ι α} (h : C.Same item item') :
    ∀ count, C.Same (Reader.replicate item count) (Reader.replicate item' count)
  | 0 => .pure []
  | count + 1 => h.andThen fun a => (same_replicate h count).map (a :: ·)

theorem same_repeated {skip : Reading κ Unit} {skip' : Reading ι Unit} (h : C.Same skip skip') :
    ∀ count, C.Same (Reader.repeated skip count) (Reader.repeated skip' count)
  | 0 => .pure ()
  | count + 1 => h.andThen fun _ => same_repeated h count

theorem same_fields {value : WireType → Reading κ Value} {value' : WireType → Reading ι Value}
    (h : ∀ type, C.Same (value type) (value' type)) :
    ∀ rounds, C.Same (Reader.fields value rounds) (Reader.fields value' rounds)
  | 0 => .throw (by simp)
  | rounds + 1 => C.same_fieldBegin.andThen fun o => by
    cases o with
    | none => exact .pure []
    | some field => exact (h field.type).andThen fun v => (same_fields h rounds).map ((field.id, v) :: ·)

theorem same_skipFields {skip : WireType → Reading κ Unit} {skip' : WireType → Reading ι Unit}
    (h : ∀ type, C.Same (skip type) (skip' type)) :
    ∀ rounds, C.Same (Reader.skipFields skip rounds) (Reader.skipFields skip' rounds)
  | 0 => .throw (by simp)
  | rounds + 1 => C.same_fieldBegin.andThen fun o => by
    cases o with
    | none => exact .pure ()
    | some field => exact (h field.type).andThen fun _ => same_skipFields h rounds

theorem same_collectionOf {item : WireType → Reading κ Value} {item' : WireType → Reading ι Value}
    (make : WireType → List Value → Value) (h : ∀ type, C.Same (item type) (item' type)) :
    C.Same (Reader.collectionOf make item) (Reader.collectionOf make item') :=
  C.same_collectionBegin.andThen fun header =>
    (C.same_replicate (h header.element) header.size).map (make header.element)

theorem same_mapOf {item : WireType → Reading κ Value} {item' : WireType → Reading ι Value}
    (h : ∀ type, C.Same (item type) (item' type)) : C.Same (Reader.mapOf item) (Reader.mapOf item') :=
  C.same_mapBegin.andThen fun header => by
    unfold Reader.entriesOf
    split
    · rename_i key value _ _
      have hentry : C.Same (Reader.entryOf item key value) (Reader.entryOf item' key value) :=
        (h key).andThen fun k => (h value).map (Prod.mk k)
      exact (C.same_replicate hentry header.size).map (Value.map key value)
    · exact .pure _

theorem same_repeatedOf {skip : WireType → Reading κ Unit} {skip' : WireType → Reading ι Unit}
    (h : ∀ type, C.Same (skip type) (skip' type)) :
    C.Same (do let header ← Reader.collectionBegin; Reader.repeated (skip header.element) header.size)
      (do let header ← Reader.collectionBegin; Reader.repeated (skip' header.element) header.size) :=
  C.same_collectionBegin.andThen fun header => C.same_repeated (h header.element) header.size

/-! ### Values -/

variable {g : Gates κ} (henter : C.Same g.enter Reader.structBegin) (hleave : C.Same g.leave Reader.structEnd)

theorem same_depthExceeded : C.Same (α := α) (do throw (.depthExceeded (← get).limits.maxDepth))
    (do throw (.depthExceeded (← get).limits.maxDepth)) := .get fun r r' hr => by
  rw [hr.left_limits, hr.right_limits]
  exact .throw (by simp)

include henter hleave

theorem same_structOf {value : WireType → Reading κ Value} {value' : WireType → Reading ι Value}
    (h : ∀ type, C.Same (value type) (value' type)) (rounds : Nat) :
    C.Same (g.structOf value rounds) (Reader.structOf value' rounds) :=
  henter.andThen fun _ => (C.same_fields h rounds).andThen fun record => hleave.andThen fun _ => .pure record

theorem same_valueWithin (rounds : Nat) :
    ∀ levels type, C.Same (g.valueWithin rounds levels type) (Reader.valueWithin rounds levels type)
  | 0, type => by cases type <;> exact C.same_depthExceeded
  | levels + 1, type => by
    have ih := same_valueWithin rounds levels
    cases type with
    | stop => exact .throw (by simp)
    | bool => exact C.same_bool.map Value.bool
    | byte => exact C.same_byte.map Value.byte
    | i16 => exact C.same_i16.map Value.i16
    | i32 => exact C.same_i32.map Value.i32
    | i64 => exact C.same_i64.map Value.i64
    | double => exact C.same_double.map Value.double
    | binary => exact C.same_binaryBytes.map Value.binary
    | list => exact C.same_collectionOf .list ih
    | set => exact C.same_collectionOf .set ih
    | map => exact C.same_mapOf ih
    | struct => exact (C.same_structOf henter hleave ih rounds).map Value.struct

theorem same_skipWithin (rounds : Nat) :
    ∀ levels type, C.Same (g.skipWithin rounds levels type) (Reader.skipWithin rounds levels type)
  | 0, type => by cases type <;> exact C.same_depthExceeded
  | levels + 1, type => by
    have ih := same_skipWithin rounds levels
    cases type with
    | stop => exact .throw (by simp)
    | bool => exact C.same_bool.map fun _ => ()
    | byte => exact C.same_byte.map fun _ => ()
    | i16 | i32 => exact C.same_i32.map fun _ => ()
    | i64 => exact C.same_i64.map fun _ => ()
    | double => exact (C.same_withSpan (Nat.le_max_left 8 _)).map fun _ => ()
    | binary => exact C.same_binaryBytes.map fun _ => ()
    | list | set => exact C.same_repeatedOf ih
    | map =>
      refine C.same_mapBegin.andThen fun ⟨key, value, size⟩ => ?_
      match key, value with
      | some key, some value => exact C.same_repeated ((ih key).andThen fun _ => ih value) size
      | some _, none | none, _ => exact .pure ()
    | struct =>
      exact henter.andThen fun _ => (C.same_skipFields ih rounds).andThen fun _ => hleave

theorem same_value (type : WireType) : C.Same (g.value type) (Reader.value type) := .get fun r r' hr => by
  rw [hr.rounds, hr.left_limits, hr.right_limits]
  exact C.same_valueWithin henter hleave _ _ type

theorem same_skip (type : WireType) : C.Same (g.skip type) (Reader.skip type) := .get fun r r' hr => by
  rw [hr.rounds, hr.left_limits, hr.right_limits]
  exact C.same_skipWithin henter hleave _ _ type

theorem same_record : C.Same g.record Reader.record := .get fun r r' hr => by
  rw [hr.rounds, hr.left_limits, hr.right_limits]
  exact C.same_structOf henter hleave (C.same_valueWithin henter hleave _ _) _

/-! ### Calls -/

omit henter hleave in
theorem same_spanReply {length : Nat} (hlength : length ≤ limits.maxString) :
    C.Same (Link.spanReply length) (Link.spanReply length) := by
  intro n r r' hr
  have h := C.readSpan (Nat.le_trans hlength (Nat.le_max_right 8 _)) hr.input
  unfold Link.spanReply Reader.onInput
  simp only [bind, EStateM.bind]
  generalize (Input.readSpan length r.input : EStateM.Result Error κ t) = o at h ⊢
  generalize (Input.readSpan length r'.input : EStateM.Result Error ι s) = o' at h ⊢
  cases h with
  | error h => exact .error ⟨h.1, { hr with input := h.2 }⟩
  | gaveUp h => exact h.elim
  | ok h =>
    obtain ⟨hbytes, hborrowed, -, hinputs⟩ := h
    exact .ok ⟨by rw [hbytes, hborrowed], n, Nat.le_refl n, { hr with input := hinputs }⟩

/-- **Every call** goes the same way. -/
theorem same_run (call : Reader.Call) : C.Same (g.run call) call.run := by
  cases call with
  | messageBegin => exact C.same_messageBegin.map Reader.Reply.message
  | structBegin => exact henter.andThen fun _ => .pure Reader.Reply.done
  | structEnd => exact hleave.andThen fun _ => .pure Reader.Reply.done
  | fieldBegin => exact C.same_fieldBegin.map Reader.Reply.field
  | mapBegin => exact C.same_mapBegin.map Reader.Reply.map
  | listBegin | setBegin => exact C.same_collectionBegin.map Reader.Reply.collection
  | messageEnd | fieldEnd | mapEnd | listEnd | setEnd => exact .pure Reader.Reply.done
  | bool => exact C.same_bool.map Reader.Reply.bool
  | byte => exact C.same_byte.map Reader.Reply.byte
  | i16 => exact C.same_i16.map Reader.Reply.i16
  | i32 => exact C.same_i32.map Reader.Reply.i32
  | i64 => exact C.same_i64.map Reader.Reply.i64
  | double => exact C.same_double.map Reader.Reply.double
  | string => exact C.same_string.map Reader.Reply.string
  | binary =>
    show C.Same (Reader.Call.run .binary) (Reader.Call.run .binary)
    rw [Link.run_binary, Link.run_binary]
    exact C.same_measured fun _ => C.same_spanReply
  | skip type => exact (C.same_skip henter hleave type).andThen fun _ => .pure Reader.Reply.done
  | value type => exact (C.same_value henter hleave type).map Reader.Reply.value
  | record => exact (C.same_record henter hleave).map Reader.Reply.record
  | limits =>
    refine .get fun r r' hr => ?_
    rw [hr.left_limits, hr.right_limits]
    exact .pure (Reader.Reply.limits limits)

/-! ### Sessions -/

/-- **Sessions** go the same way, call by call. -/
theorem paired_session : ∀ (calls : List Reader.Call) {r : Reader κ} {r' : Reader ι}, C.Coupled r r' →
    List.Forall₂ (fun p q => p.1 = q.1 ∧ (∀ e, p.1 = .error e → C.failed e) ∧ C.Coupled p.2 q.2) (g.session calls r)
      (Reader.session calls r')
  | [], _, _, _ => .nil
  | call :: calls, r, r', hr => by
    have hrun := C.same_run henter hleave call 0 r r' hr
    unfold Gates.session Reader.session
    generalize g.run call r = o at hrun ⊢
    generalize call.run r' = o' at hrun ⊢
    cases hrun with
    | error h =>
      refine .cons ⟨rfl, fun e he => ?_, h.2⟩ (paired_session calls h.2)
      cases he
      exact h.1
    | gaveUp h => exact h.elim
    | ok h =>
      obtain ⟨rfl, _, _, hr'⟩ := h
      refine .cons ⟨rfl, fun e he => ?_, hr'⟩ (paired_session calls hr')
      cases he

/-- What a session over the plain input lists is what is seen through a view of the watched readers. -/
theorem session_eq_map {view : Reader κ → Reader ι} (hview : ∀ {r r'}, C.Coupled r r' → view r = r')
    (calls : List Reader.Call) {r : Reader κ} {r' : Reader ι} (hr : C.Coupled r r') :
    Reader.session calls r' = (g.session calls r).map fun step => (step.1, view step.2) := by
  have hsame : List.Forall₂ Eq ((g.session calls r).map fun step => (step.1, view step.2))
      (Reader.session calls r') :=
    List.forall₂_map_left_iff.2 ((C.paired_session henter hleave calls hr).imp fun p q h =>
      Prod.ext h.1 (hview h.2.2))
  rw [List.forall₂_eq_eq_eq] at hsame
  exact hsame.symm

/-- Wherever a session stands, the watched reader belongs to a plain one. -/
theorem coupled_of_mem {calls : List Reader.Call} {r : Reader κ} {r' : Reader ι} (hr : C.Coupled r r')
    {step : Except Error Reader.Reply × Reader κ} (hstep : step ∈ g.session calls r) :
    (∃ r', C.Coupled step.2 r') ∧ ∀ e, step.1 = .error e → C.failed e := by
  have hpaired := C.paired_session henter hleave calls hr
  generalize Reader.session calls r' = plain at hpaired
  generalize g.session calls r = watched at hpaired hstep
  induction hpaired with
  | nil => cases hstep
  | cons h _ ih =>
    rcases List.mem_cons.1 hstep with rfl | hstep
    · exact ⟨⟨_, h.2.2⟩, h.2.1⟩
    · exact ih hstep

end Coupling

end CompactWire

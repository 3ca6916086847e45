import Mathlib
import CompactWire.Input.Recorded
import CompactWire.Input.Short
import CompactWire.Proofs.Nested
import CompactWire.Proofs.Outcome
import CompactWire.Source.Memory
import CompactWire.Transport

/-!
# CompactWire.Proofs.Skipping — skipping is reading without keeping

`skip` and `value` go through the wire on their own.  On an input whose spans have the length that was asked for
(`Input.Exact`) they are the same call but for the result: `skip_eq` says that skipping is reading and discarding what
was read, and `skips_as_reads` what this means for the outcome and the reader that is left.

A byte string is such an input, and so is a transport, whatever its source does.  On one whose spans come short,
skipping a double succeeds where reading it fails.

The induction goes along with the depth, told of every call or not (`skipAt_eq_discard`).  Each loop of `skip` has a
lemma over any reader of the values inside.
-/

namespace CompactWire

open Outcome

/-! ### Inputs with exact spans -/

/-- Every span has the length that was asked for. -/
def Input.Exact (ι : Type) {span : Type} [Input ι span] : Prop :=
  ∀ (length : Nat) (i : ι) (a : span) (i' : ι), Input.readSpan length i = .ok a i' → (Input.bytes ι a).length = length

theorem Bytes.exact : Input.Exact Bytes := by
  intro length i a i' h
  have hread : Bytes.readSpan length i = .ok a i' := h
  unfold Bytes.readSpan at hread
  by_cases hlen : i.length < length
  · rw [if_pos hlen] at hread
    cases hread
  · rw [if_neg hlen] at hread
    cases hread
    exact List.length_take_of_le (Nat.not_lt.1 hlen)

theorem Recorded.exact {ι span : Type} [Input ι span] (h : Input.Exact ι) : Input.Exact (Recorded ι) := by
  intro length r a r' hr
  have hread : deliver (Input.bytes ι) (Input.readSpan length) r = .ok a r' := hr
  unfold deliver at hread
  cases hi : Input.readSpan length r.input with
  | error e i =>
    rw [hi] at hread
    cases hread
  | ok a' i =>
    rw [hi] at hread
    cases hread
    exact h length r.input a i hi

/-- A span of a transport lies in the chunk that is held, or it was checked when it was put together. -/
theorem Transport.exact {σ : Type} [Source σ] : Input.Exact (Transport σ) := by
  intro length t a t' h
  have hread : readSpan length t = .ok a t' := h
  unfold readSpan at hread
  by_cases h0 : length = 0
  · rw [if_pos h0] at hread
    cases hread
    exact h0.symm
  · rw [if_neg h0] at hread
    obtain ⟨_, t₁, -, hread⟩ := bind_eq_ok.1 hread
    obtain ⟨_, _, ⟨⟩, hread⟩ := bind_eq_ok.1 hread
    by_cases hlt : t₁.buffered < length
    · rw [if_pos hlt] at hread
      obtain ⟨b, t₂, hb, hread⟩ := bind_eq_ok.1 hread
      cases hread
      unfold assemble at hb
      dsimp only at hb
      split at hb
      · cases hb
      · split at hb
        · cases hb
          assumption
        · cases hb
    · rw [if_neg hlt] at hread
      cases hheld : t₁.held with
      | none =>
        rw [hheld] at hread
        cases hread
      | some chunk =>
        rw [hheld] at hread
        dsimp only at hread
        unfold Buffer.consume at hread
        by_cases hc : chunk.length < length
        · rw [if_pos hc] at hread
          cases hread
        · rw [if_neg hc] at hread
          cases hread
          exact List.length_take_of_le (Nat.not_lt.1 hc)

namespace Reader

variable {ι span α β : Type}

/-! ### Discarding a result -/

theorem discard_eq (x : Reading ι α) : discard x = (do let _ ← x; return ()) := by
  funext r
  show EStateM.map _ x r = EStateM.bind x _ r
  unfold EStateM.map EStateM.bind
  cases x r <;> rfl

theorem discard_bind (x : Reading ι α) (f : Unit → Reading ι β) : discard x >>= f = (do let _ ← x; f ()) := by
  rw [discard_eq, bind_assoc]
  simp only [pure_bind]

theorem discard_of_bind (x : Reading ι α) (f : α → Reading ι β) :
    discard (x >>= f) = (do let a ← x; discard (f a)) := by
  simp only [discard_eq, bind_assoc]

theorem discard_return (x : Reading ι α) (g : α → β) : discard (do return g (← x)) = discard x := by
  simp only [discard_eq, bind_assoc, pure_bind]

theorem discard_eq_ok_iff {x : Reading ι α} {r r' : Reader ι} : discard x r = .ok () r' ↔ ∃ a, x r = .ok a r' := by
  rw [discard_eq, bind_eq_ok]
  constructor
  · rintro ⟨a, _, hx, ⟨⟩⟩
    exact ⟨a, hx⟩
  · rintro ⟨a, hx⟩
    exact ⟨a, r', hx, rfl⟩

theorem discard_eq_error_iff {x : Reading ι α} {e : Error} {r r' : Reader ι} :
    discard x r = .error e r' ↔ x r = .error e r' := by
  rw [discard_eq]
  cases hx : x r with
  | ok a r₁ =>
    rw [bind_of_ok hx]
    constructor <;> rintro ⟨⟩
  | error e₁ r₁ =>
    rw [bind_of_error hx]
    constructor <;> rintro ⟨⟩ <;> rfl

/-! ### Loops -/

theorem repeated_discard (item : Reading ι α) : ∀ count, repeated (discard item) count = discard (replicate item count)
  | 0 => rfl
  | count + 1 => by
    unfold repeated replicate
    rw [discard_bind, discard_of_bind]
    simp only [repeated_discard item count, discard_return]

variable [Input ι span]

theorem skipFields_discard (value : WireType → Reading ι Value) :
    ∀ rounds, skipFields (fun type => discard (value type)) rounds = discard (fields value rounds)
  | 0 => rfl
  | rounds + 1 => by
    have hnext : ∀ field : FieldHeader,
        (do discard (value field.type); skipFields (fun type => discard (value type)) rounds) =
          discard (do let v ← value field.type; return (field.id, v) :: (← fields value rounds)) := by
      intro field
      rw [discard_bind, discard_of_bind, skipFields_discard value rounds]
      simp only [discard_return]
    unfold skipFields fields
    rw [discard_of_bind]
    congr 1
    funext o
    cases o with
    | none => rfl
    | some field => exact hnext field

theorem skip_collectionOf (make : WireType → List Value → Value) (item : WireType → Reading ι Value) :
    (do let header ← collectionBegin; repeated (discard (item header.element)) header.size) =
      discard (collectionOf make item) := by
  unfold collectionOf
  rw [discard_of_bind]
  simp only [repeated_discard, discard_return]

theorem skip_entryOf (item : WireType → Reading ι Value) (key value : WireType) :
    (do discard (item key); discard (item value)) = discard (entryOf item key value) := by
  unfold entryOf
  rw [discard_bind, discard_of_bind]
  simp only [discard_return]

theorem skip_entriesOf (item : WireType → Reading ι Value) (header : MapHeader) :
    (match header.key, header.value with
      | some key, some value => repeated (do discard (item key); discard (item value)) header.size
      | _, _ => return ()) = discard (entriesOf item header) := by
  obtain ⟨key, value, size⟩ := header
  cases key with
  | none => rfl
  | some key =>
    cases value with
    | none => rfl
    | some value =>
      show repeated (do discard (item key); discard (item value)) size =
        discard (do return Value.map key value (← replicate (entryOf item key value) size))
      rw [skip_entryOf, repeated_discard, discard_return]

theorem skip_mapOf (item : WireType → Reading ι Value) :
    (do
      let header ← mapBegin
      match header.key, header.value with
      | some key, some value => repeated (do discard (item key); discard (item value)) header.size
      | _, _ => return ()) = discard (mapOf item) := by
  unfold mapOf
  rw [discard_of_bind]
  simp only [← skip_entriesOf]

theorem skip_structOf (value : WireType → Reading ι Value) (rounds : Nat) :
    (do structBegin; skipFields (fun type => discard (value type)) rounds; structEnd) =
      discard (structOf value rounds) := by
  unfold structOf
  rw [skipFields_discard]
  simp only [discard_eq, bind_assoc, pure_bind, bind_pure_unit]

/-! ### Values -/

/-- Where the spans are exact, the length of the span of a double need not be looked at. -/
theorem skip_double (h : Input.Exact ι) :
    discard (onInput (Input.withSpan 8) : Reading ι Bytes) = discard double := by
  have hlength : ∀ (r : Reader ι) (b : Bytes) (r' : Reader ι), onInput (Input.withSpan 8) r = .ok b r' →
      b.length = 8 := by
    intro r b r' hr
    unfold onInput at hr
    cases hi : (Input.withSpan 8 : EStateM Error ι Bytes) r.input with
    | error e i =>
      rw [hi] at hr
      cases hr
    | ok b' i =>
      rw [hi] at hr
      cases hr
      obtain ⟨a, i₁, hread, hb⟩ := bind_eq_ok.1 hi
      cases hb
      exact h 8 r.input a i₁ hread
  funext r
  unfold double
  rw [discard_of_bind, discard_eq]
  cases hr : onInput (Input.withSpan 8) r with
  | error e r' => rw [bind_of_error hr, bind_of_error hr]
  | ok b r' =>
    have h8 : ¬b.length ≠ 8 := not_not_intro (hlength r b r' hr)
    rw [bind_of_ok hr, bind_of_ok hr, if_neg h8]
    rfl

/-- Told of its calls, passing over a value is reading it as well, and it tells of the same calls. -/
theorem skipAt_eq_discard (h : Input.Exact ι) (enter : Nat → Reading ι Unit) (rounds maxDepth depth : Nat) :
    skipAt enter rounds maxDepth depth = fun type => discard (valueAt enter rounds maxDepth depth type) := by
  funext type
  rw [skipAt.eq_def, valueAt.eq_def, discard_of_bind]
  congr 1
  funext _
  by_cases hdeep : maxDepth < depth
  · rw [if_pos hdeep, if_pos hdeep]
    rfl
  rw [if_neg hdeep, if_neg hdeep, skipAt_eq_discard h enter rounds maxDepth (depth + 1)]
  cases type with
  | stop => rfl
  | bool => exact (discard_return bool Value.bool).symm
  | byte => exact (discard_return byte Value.byte).symm
  | i16 =>
    -- the number is cut to 16 bits only where it is kept
    exact (discard_return i32 Int32.toInt16).symm.trans (discard_return i16 Value.i16).symm
  | i32 => exact (discard_return i32 Value.i32).symm
  | i64 => exact (discard_return i64 Value.i64).symm
  | double => exact (skip_double h).trans (discard_return double Value.double).symm
  | binary => exact (discard_return binaryBytes Value.binary).symm
  | list => exact skip_collectionOf .list _
  | set => exact skip_collectionOf .set _
  | map => exact skip_mapOf _
  | struct => exact (skip_structOf _ rounds).trans (discard_return (structOf _ rounds) Value.struct).symm
termination_by maxDepth + 1 - depth

/-- With any number of rounds and levels, a value is passed over as it is read. -/
theorem skipWithin_eq (h : Input.Exact ι) (rounds levels : Nat) :
    (skipWithin rounds levels : WireType → Reading ι Unit) = fun type => discard (valueWithin rounds levels type) := by
  have hskip : skipAt (fun _ => pure ()) rounds levels 1 = (skipWithin rounds levels : _ → Reading ι Unit) :=
    skipAt_eq (fun _ _ => rfl) levels 1 (Nat.add_comm 1 levels)
  have hvalue : valueAt (fun _ => pure ()) rounds levels 1 = (valueWithin rounds levels : _ → Reading ι Value) :=
    valueAt_eq (fun _ _ => rfl) levels 1 (Nat.add_comm 1 levels)
  rw [← hskip, ← hvalue]
  exact skipAt_eq_discard h _ rounds levels 1

theorem skip_eq (h : Input.Exact ι) (type : WireType) :
    (skip type : Reading ι Unit) = discard (value type) := by
  unfold skip value
  rw [discard_of_bind]
  simp only [skipWithin_eq h]

/-- **Skipping agrees with reading**: from any reader, both succeed or both fail, with the same error, and they leave
the same reader: its input, with just as much taken from it, its open structs, its last field id and its pending
boolean. -/
theorem skips_as_reads (h : Input.Exact ι) (type : WireType) (r : Reader ι) :
    (∀ r', skip type r = .ok () r' ↔ ∃ v, value type r = .ok v r') ∧
    ∀ e r', skip type r = .error e r' ↔ value type r = .error e r' := by
  rw [skip_eq h]
  exact ⟨fun r' => discard_eq_ok_iff, fun e r' => discard_eq_error_iff⟩

/-- A reader in the middle of a struct, behind the header of a boolean field. -/
def amid {ι : Type} (input : ι) : Reader ι :=
  { input, limits := {}, parents := [3], lastId := 5, pendingBool := some true }

/-- What a successful call has taken, and what it leaves of the session. -/
def took : EStateM.Result Error (Reader (Recorded ι)) α → Option (Bytes × List Int16 × Int16 × Option Bool)
  | .ok _ r => some (r.input.delivered, r.parents, r.lastId, r.pendingBool)
  | .error _ _ => none

/-- Over a transport that has a byte at a time, a list whose first boolean is the pending one; over a byte string, a
list of elements of no type. -/
theorem skips_as_reads_amid :
    let transport : Transport MemorySource :=
      { source := { data := [33, 1, 7, 9], chunkSize := ⟨1, by decide⟩ }, pool := .new .standard,
        chunkSize := .mebibyte }
    (Input.Exact (Recorded (Transport MemorySource)) ∧
      took (skip .list (amid (Recorded.mk transport []))) = some ([33, 1], [3], 5, none)) ∧
    Input.Exact Bytes ∧ skip .list (amid ([29, 7] : Bytes)) = .error (.unknownType 13) (amid [7]) := by
  intro transport
  have hexact : Input.Exact (Recorded (Transport MemorySource)) := Recorded.exact Transport.exact
  have hvalue : took (value .list (amid (Recorded.mk transport []))) = some ([33, 1], [3], 5, none) := by cbv
  have herror : value .list (amid ([29, 7] : Bytes)) = .error (.unknownType 13) (amid [7]) := rfl
  refine ⟨⟨hexact, ?_⟩, Bytes.exact, ((skips_as_reads Bytes.exact .list _).2 _ _).2 herror⟩
  cases hread : value .list (amid (Recorded.mk transport [])) with
  | ok v r' =>
    rw [hread] at hvalue
    rw [((skips_as_reads hexact .list _).1 r').2 ⟨v, hread⟩]
    exact hvalue
  | error e r' =>
    rw [hread] at hvalue
    cases hvalue

/-- The span of a double that comes one byte short is passed over, and it is not read. -/
example : (∃ r', skip .double (amid (Short.mk [0, 0, 0, 0, 0, 0, 0, 0] 1)) = .ok () r') ∧
    ∃ r', value .double (amid (Short.mk [0, 0, 0, 0, 0, 0, 0, 0] 1)) = .error (.assembledLength 8 7) r' :=
  ⟨⟨_, rfl⟩, _, rfl⟩

end Reader

end CompactWire

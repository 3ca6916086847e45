import CompactWire.Proofs.Agreement
import CompactWire.Proofs.Nested
import CompactWire.Reader.Call

/-!
# CompactWire.Proofs.AgreementValues — the same values, records and calls on two sides

Goes on where `CompactWire.Proofs.Agreement` ends: reading values and records, skipping, and at last every call of a
reader (`agrees_run`).  The induction for values is on the levels, which a tighter second side runs out of first; the
loops over fields have lemmas of their own, where each header takes a byte of those that bound the rounds.
-/

namespace CompactWire

/-- A reply without the mark that tells whether its bytes are a view of the input. -/
def Reader.Reply.unmarked : Reply → Reply
  | .binary bytes _ => .binary bytes true
  | reply => reply

namespace Link

variable {ι κ s t : Type} [Input ι s] [Input κ t] (L : Link ι κ) {n k : Nat} {α : Type}

/-! ### Loops -/

theorem agrees_replicate {item : Reading ι α} {item' : Reading κ α} (h : ∀ m, m ≤ n → L.SameReading m 0 item item') :
    ∀ (count m : Nat), m ≤ n → L.SameReading m 0 (Reader.replicate item count) (Reader.replicate item' count)
  | 0, _, _ => Agrees.pure rfl
  | count + 1, m, hm => (h m hm).andThen fun m' a hm' =>
    (agrees_replicate h count m' (by omega)).map (a :: ·)

theorem agrees_repeated {skip : Reading ι Unit} {skip' : Reading κ Unit}
    (h : ∀ m, m ≤ n → L.SameReading m 0 skip skip') :
    ∀ (count m : Nat), m ≤ n → L.SameReading m 0 (Reader.repeated skip count) (Reader.repeated skip' count)
  | 0, _, _ => Agrees.pure rfl
  | count + 1, m, hm => (h m hm).andThen fun m' _ hm' => agrees_repeated h count m' (by omega)

theorem agrees_fields {value : WireType → Reading ι Value} {value' : WireType → Reading κ Value}
    (h : ∀ m, m ≤ n → ∀ type, L.SameReading m 0 (value type) (value' type)) :
    ∀ (rounds rounds' m : Nat), m ≤ n → m < rounds → m < rounds' →
      L.SameReading m 0 (Reader.fields value rounds) (Reader.fields value' rounds')
  | 0, _, _, _, hr, _ => absurd hr (Nat.not_lt_zero _)
  | _ + 1, 0, _, _, _, hr => absurd hr (Nat.not_lt_zero _)
  | rounds + 1, rounds' + 1, m, hm, hr, hr' => by
    refine (L.agrees_fieldBegin).andThen (fun m₁ o hm₁ => ?_) |>.weaken
    cases o with
    | none => exact Agrees.pure rfl
    | some field =>
      refine (h m₁ (by omega) field.type).andThen fun m₂ v hm₂ => ?_
      exact (agrees_fields h rounds rounds' m₂ (by omega) (by omega) (by omega)).map ((field.id, v) :: ·)

theorem agrees_skipFields {skip : WireType → Reading ι Unit} {skip' : WireType → Reading κ Unit}
    (h : ∀ m, m ≤ n → ∀ type, L.SameReading m 0 (skip type) (skip' type)) :
    ∀ (rounds rounds' m : Nat), m ≤ n → m < rounds → m < rounds' →
      L.SameReading m 0 (Reader.skipFields skip rounds) (Reader.skipFields skip' rounds')
  | 0, _, _, _, hr, _ => absurd hr (Nat.not_lt_zero _)
  | _ + 1, 0, _, _, _, hr => absurd hr (Nat.not_lt_zero _)
  | rounds + 1, rounds' + 1, m, hm, hr, hr' => by
    refine (L.agrees_fieldBegin).andThen (fun m₁ o hm₁ => ?_) |>.weaken
    cases o with
    | none => exact Agrees.pure rfl
    | some field =>
      refine (h m₁ (by omega) field.type).andThen fun m₂ _ hm₂ => ?_
      exact agrees_skipFields h rounds rounds' m₂ (by omega) (by omega) (by omega)

/-! ### Values -/

/-- No levels are left on the second side. -/
theorem agrees_noLevels {x : Reading ι α} {levels : Nat} (ht : Tightens (GivesUpAtDepth L.limits L.givesUp) levels 0)
    (hx : levels = 0 → x = (do throw (.depthExceeded (← get).limits.maxDepth))) :
    L.SameReading n k x (do throw (.depthExceeded (← get).limits.maxDepth)) := by
  rcases ht with h0 | ⟨-, hgive⟩
  · rw [hx h0.symm]
    refine Agrees.get fun r r' hr => ?_
    rcases (L.tightens hr.limits).2.2 with h | ⟨-, hgive⟩
    · rw [h]
      exact fail (by simp)
    · exact Agrees.giveUp (hgive _ _ hr.limits)
  · exact fun _ _ hr => .gaveUp (hgive _ _ hr.limits)

theorem tightens_succ {mayGiveUp : Prop} {levels levels' : Nat} :
    Tightens mayGiveUp (levels + 1) (levels' + 1) ↔ Tightens mayGiveUp levels levels' := by
  unfold Tightens
  rw [Nat.succ_inj, Nat.add_le_add_iff_right]

theorem agrees_structOf {value : WireType → Reading ι Value} {value' : WireType → Reading κ Value}
    {rounds rounds' : Nat} (hr : n < rounds) (hr' : n < rounds')
    (h : ∀ m, m ≤ n → ∀ type, L.SameReading m 0 (value type) (value' type)) :
    L.SameReading n 0 (Reader.structOf value rounds) (Reader.structOf value' rounds') :=
  L.agrees_structBegin.andThen fun m _ hm =>
    (L.agrees_fields h rounds rounds' m hm (by omega) (by omega)).andThen fun _ record _ =>
      L.agrees_structEnd.andThen fun _ _ _ => Agrees.pure rfl

theorem agrees_collectionOf {item : WireType → Reading ι Value} {item' : WireType → Reading κ Value}
    (make : WireType → List Value → Value) (h : ∀ m, m ≤ n → ∀ type, L.SameReading m 0 (item type) (item' type)) :
    L.SameReading n 0 (Reader.collectionOf make item) (Reader.collectionOf make item') :=
  L.agrees_collectionBegin.weaken.andThen fun m header hm =>
    (L.agrees_replicate (fun m' hm' => h m' hm' header.element) header.size m hm).map (make header.element)

theorem agrees_entryOf {item : WireType → Reading ι Value} {item' : WireType → Reading κ Value}
    (h : ∀ m, m ≤ n → ∀ type, L.SameReading m 0 (item type) (item' type)) (key value : WireType) :
    ∀ m, m ≤ n → L.SameReading m 0 (Reader.entryOf item key value) (Reader.entryOf item' key value) :=
  fun m hm => (h m hm key).andThen fun m' k hm' => (h m' (by omega) value).map (Prod.mk k)

theorem agrees_mapOf {item : WireType → Reading ι Value} {item' : WireType → Reading κ Value}
    (h : ∀ m, m ≤ n → ∀ type, L.SameReading m 0 (item type) (item' type)) :
    L.SameReading n 0 (Reader.mapOf item) (Reader.mapOf item') :=
  L.agrees_mapBegin.weaken.andThen fun m header hm => by
    unfold Reader.entriesOf
    split
    · rename_i key value _ _
      exact (L.agrees_replicate (L.agrees_entryOf h key value) header.size m hm).map (Value.map key value)
    · exact Agrees.pure rfl

/-- The first side may be told of its calls, if that changes nothing that the two have in common. -/
theorem agrees_valueAt {enter : Nat → Reading ι Unit} (hquiet : ∀ m depth, L.SameReading m 0 (enter depth) (pure ()))
    {rounds rounds' maxDepth : Nat} (hr : n < rounds) (hr' : n < rounds') : ∀ {levels levels' depth : Nat},
      depth + levels = maxDepth + 1 → Tightens (GivesUpAtDepth L.limits L.givesUp) levels levels' → ∀ m, m ≤ n →
      ∀ type, L.SameReading m 0 (Reader.valueAt enter rounds maxDepth depth type)
        (Reader.valueWithin rounds' levels' type)
  | levels, 0, depth, hsum, ht, m, _, type => by
    rw [Reader.valueAt.eq_def]
    refine (hquiet m depth).andThen (g := fun _ => Reader.valueWithin rounds' 0 type) fun m' _ _ => ?_
    refine L.agrees_noLevels ht fun h => ?_
    rw [if_pos (by omega)]
  | 0, levels' + 1, _, _, ht, _, _, _ => absurd ht.le (Nat.not_succ_le_zero _)
  | levels + 1, levels' + 1, depth, hsum, ht, m, hm, type => by
    rw [Reader.valueAt.eq_def, if_neg (by omega)]
    refine (hquiet m depth).andThen (g := fun _ => Reader.valueWithin rounds' (levels' + 1) type) fun m₁ _ hm₁ => ?_
    have hle : m₁ ≤ n := Nat.le_trans hm₁ hm
    have ih : ∀ m', m' ≤ m₁ → ∀ type, L.SameReading m' 0 (Reader.valueAt enter rounds maxDepth (depth + 1) type)
        (Reader.valueWithin rounds' levels' type) :=
      fun m' hm' => agrees_valueAt hquiet hr hr' (by omega) (tightens_succ.1 ht) m' (Nat.le_trans hm' hle)
    cases type with
    | stop => exact fail (by simp)
    | bool => exact L.agrees_bool.map Value.bool
    | byte => exact L.agrees_byte.weaken.map Value.byte
    | i16 => exact L.agrees_i16.weaken.map Value.i16
    | i32 => exact L.agrees_i32.weaken.map Value.i32
    | i64 => exact L.agrees_i64.weaken.map Value.i64
    | double => exact L.agrees_double.map Value.double
    | binary => exact L.agrees_binaryBytes.weaken.map Value.binary
    | list => exact L.agrees_collectionOf .list ih
    | set => exact L.agrees_collectionOf .set ih
    | map => exact L.agrees_mapOf ih
    | struct =>
      exact (L.agrees_structOf (Nat.lt_of_le_of_lt hle hr) (Nat.lt_of_le_of_lt hle hr') ih).map Value.struct

theorem agrees_valueWithin {rounds rounds' : Nat} (hr : n < rounds) (hr' : n < rounds') {levels levels' : Nat}
    (ht : Tightens (GivesUpAtDepth L.limits L.givesUp) levels levels') : ∀ m, m ≤ n → ∀ type,
      L.SameReading m 0 (Reader.valueWithin rounds levels type) (Reader.valueWithin rounds' levels' type) := by
  have hsum : 1 + levels = levels + 1 := Nat.add_comm 1 levels
  have htold : Reader.valueAt (fun _ => pure ()) rounds levels 1 =
      (Reader.valueWithin rounds levels : _ → Reading ι Value) := Reader.valueAt_eq (fun _ _ => rfl) levels 1 hsum
  rw [← htold]
  exact L.agrees_valueAt (fun m depth => Agrees.pure rfl) hr hr' hsum ht

theorem agrees_skipWithin {rounds rounds' : Nat} (hr : n < rounds) (hr' : n < rounds') :
    ∀ {levels levels' : Nat}, Tightens (GivesUpAtDepth L.limits L.givesUp) levels levels' → ∀ m, m ≤ n → ∀ type,
      L.SameReading m 0 (Reader.skipWithin rounds levels type) (Reader.skipWithin rounds' levels' type)
  | levels, 0, ht, m, _, type => L.agrees_noLevels ht fun h => by rw [h]; rfl
  | 0, levels' + 1, ht, _, _, _ => absurd ht.le (Nat.not_succ_le_zero _)
  | levels + 1, levels' + 1, ht, m, hm, type => by
    have ih : ∀ m', m' ≤ m → ∀ type,
        L.SameReading m' 0 (Reader.skipWithin rounds levels type) (Reader.skipWithin rounds' levels' type) :=
      fun m' hm' => agrees_skipWithin hr hr' (tightens_succ.1 ht) m' (Nat.le_trans hm' hm)
    cases type with
    | stop => exact fail (by simp)
    | bool => exact L.agrees_bool.map fun _ => ()
    | byte => exact L.agrees_byte.weaken.map fun _ => ()
    | i16 => exact L.agrees_i32.weaken.map fun _ => ()
    | i32 => exact L.agrees_i32.weaken.map fun _ => ()
    | i64 => exact L.agrees_i64.weaken.map fun _ => ()
    | double => exact (L.agrees_withSpan L.covers_eight).map fun _ => ()
    | binary => exact L.agrees_binaryBytes.weaken.map fun _ => ()
    | list => exact L.agrees_collectionBegin.weaken.andThen fun m' header hm' =>
        L.agrees_repeated (fun m'' hm'' => ih m'' hm'' header.element) header.size m' hm'
    | set => exact L.agrees_collectionBegin.weaken.andThen fun m' header hm' =>
        L.agrees_repeated (fun m'' hm'' => ih m'' hm'' header.element) header.size m' hm'
    | map =>
      refine L.agrees_mapBegin.weaken.andThen fun m' header hm' => ?_
      split
      · rename_i key value _ _
        refine L.agrees_repeated (n := m) (fun m'' hm'' => ?_) header.size m' hm'
        exact (ih m'' hm'' key).andThen fun m₃ _ hm₃ => ih m₃ (Nat.le_trans hm₃ hm'') value
      · exact Agrees.pure rfl
    | struct => exact L.agrees_structBegin.andThen fun m' _ hm' =>
        (L.agrees_skipFields ih rounds rounds' m' hm' (by omega) (by omega)).andThen fun _ _ _ => L.agrees_structEnd

/-- The bytes that both sides still have are fewer than the rounds. -/
theorem lt_rounds {r : Reader ι} {r' : Reader κ} (hr : L.Linked (L.states n) r r') : n < r.rounds ∧ n < r'.rounds :=
  ⟨Nat.lt_succ_of_le (L.remaining hr.input).1, Nat.lt_succ_of_le (L.remaining hr.input).2⟩

theorem agrees_value (type : WireType) : L.SameReading n 0 (Reader.value type) (Reader.value type) := by
  refine Agrees.get fun r r' hr => ?_
  have hrounds := L.lt_rounds hr
  have ht := tightens_succ.2 (L.tightens hr.limits).2.2
  exact L.agrees_valueWithin hrounds.1 hrounds.2 ht n (Nat.le_refl n) type

theorem agrees_skip (type : WireType) : L.SameReading n 0 (Reader.skip type) (Reader.skip type) := by
  refine Agrees.get fun r r' hr => ?_
  have hrounds := L.lt_rounds hr
  have ht := tightens_succ.2 (L.tightens hr.limits).2.2
  exact L.agrees_skipWithin hrounds.1 hrounds.2 ht n (Nat.le_refl n) type

theorem agrees_record : L.SameReading n 0 Reader.record Reader.record := by
  refine Agrees.get fun r r' hr => ?_
  have hrounds := L.lt_rounds hr
  exact L.agrees_structOf hrounds.1 hrounds.2
    (L.agrees_valueWithin hrounds.1 hrounds.2 (L.tightens hr.limits).2.2)

/-! ### Calls -/

/-- A span that is released as soon as it was looked at. -/
def spanReply {ι s : Type} [Input ι s] (length : Nat) : Reading ι Reader.Reply := do
  let a ← Reader.onInput (Input.readSpan length)
  Reader.onInput (modify (Input.release a))
  return .binary (Input.bytes ι a) (Input.borrowed ι a)

theorem run_binary {ι s : Type} [Input ι s] :
    (Reader.Call.run .binary : Reading ι Reader.Reply) = (do spanReply (← Reader.readLength)) :=
  bind_assoc (Reader.readLength (ι := ι)) (fun length => Reader.onInput (Input.readSpan length)) _

theorem agrees_spanReply {length : Nat} (hlength : L.covers length) :
    Agrees L.readers n 0 (spanReply length) (spanReply length) (fun a b => a.unmarked = b.unmarked) := by
  intro r r' hr
  have h := L.readSpan length hlength hr.input
  show BothEnd _ _ _ (EStateM.bind (Reader.onInput (Input.readSpan length)) _ r)
    (EStateM.bind (Reader.onInput (Input.readSpan length)) _ r')
  unfold EStateM.bind Reader.onInput
  generalize Input.readSpan length r.input = o at h ⊢
  generalize Input.readSpan length r'.input = o' at h ⊢
  cases h with
  | error h => exact .error { hr with input := h }
  | gaveUp h => exact .gaveUp h
  | ok h =>
    obtain ⟨hbytes, m, hm, hs⟩ := h
    exact .ok ⟨congrArg (Reader.Reply.binary · true) hbytes, m, hm, { hr with input := hs }⟩

/-- **Every call** agrees, but for the mark of a span. -/
theorem agrees_run (hl : ∀ l l', L.limits l l' → l = l') (call : Reader.Call) :
    Agrees L.readers n 0 call.run call.run (fun a b => a.unmarked = b.unmarked) := by
  have hmark : ∀ a b : Reader.Reply, a = b → a.unmarked = b.unmarked := fun _ _ h => congrArg _ h
  cases call with
  | messageBegin => exact (L.agrees_messageBegin.map .message).mono (Nat.zero_le 1) hmark
  | structBegin => exact L.agrees_structBegin.andThen fun _ _ _ => Agrees.pure rfl
  | structEnd => exact L.agrees_structEnd.andThen fun _ _ _ => Agrees.pure rfl
  | fieldBegin => exact (L.agrees_fieldBegin.map .field).mono (Nat.zero_le 1) hmark
  | mapBegin => exact (L.agrees_mapBegin.map .map).mono (Nat.zero_le 1) hmark
  | listBegin | setBegin => exact (L.agrees_collectionBegin.map .collection).mono (Nat.zero_le 1) hmark
  | messageEnd | fieldEnd | mapEnd | listEnd | setEnd => exact Agrees.pure rfl
  | bool => exact (L.agrees_bool.map .bool).mono (Nat.zero_le 0) hmark
  | byte => exact (L.agrees_byte.map .byte).mono (Nat.zero_le 1) hmark
  | i16 => exact (L.agrees_i16.map .i16).mono (Nat.zero_le 1) hmark
  | i32 => exact (L.agrees_i32.map .i32).mono (Nat.zero_le 1) hmark
  | i64 => exact (L.agrees_i64.map .i64).mono (Nat.zero_le 1) hmark
  | double => exact (L.agrees_double.map .double).mono (Nat.zero_le 0) hmark
  | string => exact (L.agrees_string.map .string).mono (Nat.zero_le 1) hmark
  | binary =>
    rw [run_binary, run_binary]
    exact (L.measured fun _ _ hlength => L.agrees_spanReply hlength).weaken
  | skip type => exact (L.agrees_skip type).andThen fun _ _ _ => Agrees.pure rfl
  | value type => exact ((L.agrees_value type).map .value).mono (Nat.zero_le 0) hmark
  | record => exact (L.agrees_record.map .record).mono (Nat.zero_le 0) hmark
  | limits =>
    refine Agrees.get fun r r' hr => ?_
    rw [hl _ _ hr.limits]
    exact Agrees.pure rfl

end Link

end CompactWire

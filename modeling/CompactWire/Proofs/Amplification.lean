import CompactWire.Input.Noted
import CompactWire.Proofs.AgreementValues
import CompactWire.Proofs.Skipping
import CompactWire.Proofs.Unlimited

/-!
# CompactWire.Proofs.Amplification — the bytes that are taken bound what is made of them

The sizes in headers are only declared.  What is read holds no more values, with the bytes of its binaries, than bytes
were taken for it (`Phrase.Written.weight_le`), and even a reading that fails has not begun with more values than that
and one more (`not_amplified`).

The second bound is an account of two kinds: values that were begun, and bytes that are to come.  Beginning with a value
costs one, and what is read of the value, at least a byte, pays for it.  `Pays` keeps the account.  The exception is the
boolean of a field, which takes no byte: the header of the field has one to spare.
-/

namespace CompactWire

open Outcome

/-! ### What a value holds -/

namespace Value

@[simp] theorem weight_nil : weight [] = 0 := rfl

@[simp] theorem weight_cons (v : Value) (vs : List Value) : weight (v :: vs) = v.byteLength + 1 + weight vs := rfl

@[simp] theorem weight_append (vs ws : List Value) : weight (vs ++ ws) = weight vs + weight ws := by
  induction vs with
  | nil => simp
  | cons v vs ih =>
    rw [List.cons_append, weight_cons, weight_cons, ih]
    omega

end Value

namespace Phrase

variable {limits : Option Limits} {p : Phrase} {bs : Bytes}

/-- The weight of the values, where the struct around fields counts. -/
def weight : Phrase → Nat
  | value v => Value.weight v.parts
  | items vs => Value.weight (Value.itemParts vs)
  | entries es => Value.weight (Value.entryParts es)
  | fields _ r => Value.weight (Value.fieldParts r) + 1

/-- A byte at least is taken for every value, and the bytes of binaries are taken besides. -/
theorem Written.weight_le (h : Written limits p bs) : p.weight ≤ bs.length := by
  induction h with
  | bool | byte => exact Nat.le_refl 1
  | i16 hn | i32 hn | i64 hn => exact hn.1.length_pos
  | double bits => simp [weight, Value.parts, Value.byteLength]
  | binary hn =>
    have := hn.1.length_pos
    simp only [weight, Value.parts, Value.weight_cons, Value.weight_nil, Value.byteLength, List.length_append]
    omega
  | list hh _ _ ih | set hh _ _ ih =>
    have := hh.length_pos
    simp only [weight, Value.parts, Value.weight_cons, Value.byteLength, List.length_append] at *
    omega
  | emptyMap hn => exact hn.1.length_pos
  | map _ hn _ _ _ _ _ ih =>
    simp only [weight, Value.parts, Value.weight_cons, Value.byteLength, List.length_append, List.length_cons] at *
    omega
  | struct _ ih =>
    simp only [weight, Value.parts, Value.weight_cons, Value.byteLength] at *
    omega
  | noItems | noEntries | stop => simp [weight, Value.itemParts, Value.entryParts, Value.fieldParts]
  | item _ _ ih₁ ih₂ =>
    simp only [weight, Value.itemParts, Value.weight_append, List.length_append] at *
    omega
  | entry _ _ _ ih₁ ih₂ ih₃ =>
    simp only [weight, Value.entryParts, Value.weight_append, List.length_append] at *
    omega
  | boolField hh _ ih =>
    have := hh.length_pos
    simp only [weight, Value.fieldParts, Value.parts, Value.weight_append, Value.weight_cons, Value.weight_nil,
      Value.byteLength, List.length_append] at *
    omega
  | field _ hh _ _ ih₁ ih₂ =>
    simp only [weight, Value.fieldParts, Value.weight_append, List.length_append] at *
    omega

end Phrase

namespace Reader

variable {r r' : Reader Bytes}

/-- A record that is read, a struct itself, holds no more than was taken for it. -/
theorem weight_record_le {s : Record} (idle : r.pendingBool = none) (h : record r = .ok s r') :
    Value.weight (Value.struct s).parts + r'.input.length ≤ r.input.length := by
  obtain ⟨bs, rest, hinput, ⟨-, -, hwritten⟩, rfl⟩ := (record_eq_ok idle s r').1 h
  have hle := (Phrase.Written.struct hwritten).weight_le
  rw [hinput, List.length_append]
  exact Nat.add_le_add_right hle _

theorem weight_value_le {type : WireType} {v : Value} (idle : r.pendingBool = none) (h : value type r = .ok v r') :
    Value.weight v.parts + r'.input.length ≤ r.input.length := by
  have hreads := readsValues_valueWithin (Nat.lt_succ_self r.input.length) (r.limits.maxDepth + 1)
  obtain ⟨bs, rest, hinput, hform, rfl⟩ := (hreads.plain r type idle r.input v r' (Nat.le_refl _)).1 h
  have hle := hform.2.2.2.weight_le
  rw [hinput, List.length_append]
  exact Nat.add_le_add_right hle _

/-! ### Told of every call -/

/-- The same session over an input that a tally is kept with. -/
def tallied (r : Reader Bytes) : Reader (Noted Nat Bytes) :=
  ⟨⟨r.input, 0⟩, r.limits, r.parents, r.lastId, r.pendingBool⟩

/-- The session without the tally. -/
def untallied (r : Reader (Noted Nat Bytes)) : Reader Bytes :=
  ⟨r.input.input, r.limits, r.parents, r.lastId, r.pendingBool⟩

/-- Counts a call, whatever its depth. -/
def counting (_depth : Nat) : Reading (Noted Nat Bytes) Unit := onInput (Noted.note (· + 1))

end Reader

/-- Neither side gives up, for the limits are the same. -/
theorem Noted.tightens {l l' : Limits} (h : l = l') :
    Tightens (GivesUpAtLength fun _ => False) l.maxString l'.maxString ∧
    Tightens (GivesUpAtLength fun _ => False) l.maxContainer l'.maxContainer ∧
    Tightens (GivesUpAtDepth Eq fun _ => False) l.maxDepth l'.maxDepth :=
  h ▸ ⟨Or.inl rfl, Or.inl rfl, Or.inl rfl⟩

/-- A byte string that a tally is kept with, and the byte string. -/
def Noted.link : Link (Noted Nat Bytes) Bytes where
  states n i j := n = j.length ∧ i.input = j
  failed _ i j := i.input = j
  givesUp _ := False
  limits := Eq
  remaining := by
    rintro n i j ⟨rfl, rfl⟩
    exact ⟨Nat.le_refl _, Nat.le_refl _⟩
  failed_of_ne := fun _ hs => hs.2
  readByte n := by
    rintro ⟨i, tally⟩ j ⟨rfl, rfl⟩
    cases i with
    | nil => exact .error rfl
    | cons b i => exact .ok ⟨rfl, i.length, Nat.le_refl _, rfl, rfl⟩
  readSpan length := by
    rintro - ⟨rfl, rfl⟩
    rename_i i
    show BothEnd _ _ _ (within (Bytes.readSpan length) i) (Bytes.readSpan length i.input)
    unfold within Bytes.readSpan
    by_cases hshort : i.input.length < length
    · rw [if_pos hshort]
      exact .error rfl
    · rw [if_neg hshort]
      refine .ok ⟨rfl, (i.input.drop length).length, ?_, rfl, rfl⟩
      rw [List.length_drop]
      exact Nat.sub_le _ _
  tightens := @Noted.tightens

theorem Noted.exact : Input.Exact (Noted Nat Bytes) := by
  intro length t a t' h
  have hread : within (Bytes.readSpan length) t = .ok a t' := h
  unfold within at hread
  cases hi : Bytes.readSpan length t.input with
  | error e i =>
    rw [hi] at hread
    cases hread
  | ok b i =>
    rw [hi] at hread
    cases hread
    exact Bytes.exact length t.input a i hi

namespace Reader

variable {α β : Type}

theorem eq_untallied_of_linked {r : Reader (Noted Nat Bytes)} {r' : Reader Bytes}
    (hr : Noted.link.Linked (fun t bs => t.input = bs) r r') : untallied r = r' := by
  obtain ⟨hinput, hlimits, hparents, hlastId, hpending⟩ := hr
  have hlimits' : r.limits = r'.limits := hlimits
  unfold untallied
  rw [hinput, hlimits', hparents, hlastId, hpending]

/-- Counting does not change what is read. -/
theorem same_of_agrees {x : Reading (Noted Nat Bytes) α} {y : Reading Bytes α}
    (h : ∀ n, Noted.link.SameReading n 0 x y) (r : Reader Bytes) : onState untallied (x r.tallied) = y r := by
  have hends := h r.input.length r.tallied r ⟨⟨rfl, rfl⟩, rfl, rfl, rfl, rfl⟩
  generalize x r.tallied = o at hends ⊢
  generalize y r = o' at hends ⊢
  cases hends with
  | ok hgood =>
    obtain ⟨rfl, m, -, hlinked⟩ := hgood
    exact congrArg _ (eq_untallied_of_linked { hlinked with input := hlinked.input.2 })
  | error hlinked => exact congrArg _ (eq_untallied_of_linked hlinked)
  | gaveUp hgave => exact hgave.elim

theorem agrees_counting (m depth : Nat) : Noted.link.SameReading m 0 (counting depth) (pure ()) := by
  intro r r' hr
  exact .ok ⟨rfl, m, Nat.le_refl m, { hr with input := hr.input }⟩

theorem same_record (r : Reader Bytes) : onState untallied (recordTold counting r.tallied) = record r := by
  refine same_of_agrees (fun n => Agrees.get fun s s' hs => ?_) r
  have hrounds := Noted.link.lt_rounds hs
  have hlimits : s.limits = s'.limits := hs.limits
  rw [hlimits]
  exact Noted.link.agrees_structOf hrounds.1 hrounds.2
    (Noted.link.agrees_valueAt agrees_counting hrounds.1 hrounds.2 (Nat.add_comm _ _) (Or.inl rfl))

theorem same_value (type : WireType) (r : Reader Bytes) :
    onState untallied (valueTold counting type r.tallied) = value type r := by
  refine same_of_agrees (fun n => Agrees.get fun s s' hs => ?_) r
  have hrounds := Noted.link.lt_rounds hs
  have hlimits : s.limits = s'.limits := hs.limits
  rw [hlimits]
  exact Noted.link.agrees_valueAt agrees_counting hrounds.1 hrounds.2 (Nat.zero_add _) (Or.inl rfl) n
    (Nat.le_refl n) type

theorem skipTold_eq_discard (type : WireType) : skipTold counting type = discard (valueTold counting type) := by
  unfold skipTold valueTold
  rw [discard_of_bind]
  simp only [skipAt_eq_discard Noted.exact]

theorem same_skip (type : WireType) (r : Reader Bytes) :
    onState untallied (skipTold counting type r.tallied) = skip type r := by
  rw [skipTold_eq_discard, skip_eq Bytes.exact, discard_eq, discard_eq]
  refine (onState_bind (v := untallied) (s := r.tallied) (x := valueTold counting type) ?_ fun _ _ => rfl).symm
  exact (same_value type r).symm

end Reader

/-! ### The account -/

/-- The values that were begun and the bytes that are to come. -/
def Noted.account (t : Noted Nat Bytes) : Nat := t.notes + t.input.length

/-- The operation takes `n` bytes off the account if it succeeds, and puts none on it if it fails. -/
def Noted.Takes {α : Type} (n : Nat) (x : EStateM Error (Noted Nat Bytes) α) : Prop := ∀ t,
  Ends (fun _ t' => t'.account + n ≤ t.account) (fun t' => t'.account ≤ t.account) (x t)

namespace Noted

variable {α β : Type} {n : Nat}

theorem Takes.bind {x : EStateM Error (Noted Nat Bytes) α} {f : α → EStateM Error (Noted Nat Bytes) β} (hx : Takes n x)
    (hf : ∀ a, Takes 0 (f a)) : Takes n (x >>= f) := fun t =>
  ends_bind (hx t) fun a u hu => (hf a u).mono (fun _ _ hv => by omega) fun _ hv => by omega

theorem takes_readByte : Takes 1 Input.readByte := by
  rintro ⟨i, tally⟩
  cases i with
  | nil => exact Nat.le_refl _
  | cons b i => exact Nat.le_refl (tally + (i.length + 1))

theorem takes_readGroups (top : Nat) : ∀ groups, Takes 1 (Varint.readGroups top groups)
  | 0 => takes_readByte.bind fun b => by
    split
    · exact fun t => Nat.le_refl _
    · exact fun t => Nat.le_refl _
  | groups + 1 => takes_readByte.bind fun b => by
    split
    · exact fun t => Nat.le_refl _
    · refine Takes.bind (fun t => ?_) fun n t => Nat.le_refl _
      exact (takes_readGroups top groups t).mono (fun _ _ h => Nat.le_of_succ_le h) fun _ h => h

theorem takes_withSpan (length : Nat) : Takes length (Input.withSpan length) := by
  refine Takes.bind (fun t => ?_) fun bytes t => Nat.le_refl _
  show Ends _ _ (within (Bytes.readSpan length) t)
  unfold within Bytes.readSpan
  by_cases hshort : t.input.length < length
  · rw [if_pos hshort]
    exact Nat.le_refl _
  · rw [if_neg hshort]
    show t.notes + (t.input.drop length).length + length ≤ t.notes + t.input.length
    rw [List.length_drop]
    omega

end Noted

namespace Reader

variable {α β : Type}

/-- From where no boolean is pending, the call takes `gain` off the account if it succeeds, and then no boolean is
pending; if it fails it puts `loss` on it at most. -/
def Pays (gain loss : Nat) (x : Reading (Noted Nat Bytes) α) : Prop := ∀ r, r.pendingBool = none →
  Ends (fun _ r' => r'.pendingBool = none ∧ r'.input.account + gain ≤ r.input.account)
    (fun r' => r'.input.account ≤ r.input.account + loss) (x r)

namespace Pays

variable {x : Reading (Noted Nat Bytes) α} {f : α → Reading (Noted Nat Bytes) β} {gain loss g l : Nat}

theorem pure {a : α} : Pays 0 loss (pure a) := fun _ hr => ⟨hr, Nat.le_refl _⟩

theorem throw (e : Error) : Pays (α := α) gain loss (throw e) := fun _ _ => Nat.le_add_right _ _

theorem bind_of {gain' loss' : Nat} (hx : Pays g l x) (hf : ∀ a, Pays gain' loss' (f a)) (hgain : gain ≤ g + gain')
    (hl : l ≤ loss) (hloss : loss' ≤ loss + g) : Pays gain loss (x >>= f) := by
  intro r hidle
  refine ends_bind ((hx r hidle).mono (fun _ _ h => h) fun t ht => Nat.le_trans ht (by omega)) ?_
  rintro a t ⟨hidle', ht⟩
  refine (hf a t hidle').mono ?_ fun u hu => by omega
  rintro b u ⟨hidle'', hu⟩
  exact ⟨hidle'', by omega⟩

/-- What is taken by the first call pays for the second. -/
theorem bind (hx : Pays 1 0 x) (hf : ∀ a, Pays 0 1 (f a)) : Pays 1 0 (x >>= f) :=
  hx.bind_of hf (Nat.le_refl 1) (Nat.le_refl 0) (Nat.le_refl 1)

/-- The first call leaves the account alone. -/
theorem after (hx : Pays 0 0 x) (hf : ∀ a, Pays gain loss (f a)) : Pays gain loss (x >>= f) :=
  hx.bind_of hf (Nat.le_add_left _ _) (Nat.zero_le _) (Nat.le_refl _)

theorem map (hx : Pays gain loss x) (h : α → β) : Pays gain loss (do return h (← x)) :=
  hx.bind_of (fun _ => Pays.pure) (Nat.le_refl _) (Nat.le_refl _) (Nat.zero_le _)

theorem mono (hx : Pays g l x) (hgain : gain ≤ g) (hloss : l ≤ loss) : Pays gain loss x := fun r hidle =>
  (hx r hidle).mono (fun _ _ h => ⟨h.1, by omega⟩) fun _ h => by omega

theorem get {f : Reader (Noted Nat Bytes) → Reading (Noted Nat Bytes) β} (hf : ∀ r, Pays gain loss (f r)) :
    Pays gain loss (get >>= f) := fun r hidle => hf r r hidle

theorem onInput {n : Nat} {y : EStateM Error (Noted Nat Bytes) α} (hy : Noted.Takes n y) : Pays n 0 (onInput y) := by
  intro r hidle
  have h := hy r.input
  unfold Reader.onInput
  cases hr : y r.input with
  | ok a t =>
    rw [hr] at h
    exact ⟨hidle, h⟩
  | error e t =>
    rw [hr] at h
    exact h

end Pays

/-- The reader has begun with one more value. -/
def begun (r : Reader (Noted Nat Bytes)) : Reader (Noted Nat Bytes) :=
  { r with input := { r.input with notes := r.input.notes + 1 } }

theorem account_begun (r : Reader (Noted Nat Bytes)) : r.begun.input.account = r.input.account + 1 :=
  Nat.add_right_comm _ _ _

/-- Beginning with a value costs one, and what is taken for it pays. -/
theorem Pays.counted {x : Reading (Noted Nat Bytes) α} (hx : Pays 1 0 x) (depth : Nat) :
    Pays 0 1 (do counting depth; x) := by
  intro r hidle
  have hbegun := account_begun r
  show Ends _ _ (x r.begun)
  refine (hx r.begun hidle).mono ?_ fun t ht => by omega
  rintro a t ⟨hidle', ht⟩
  exact ⟨hidle', by omega⟩

/-! ### Headers and single values -/

theorem pays_typeOf (code : Nat) : Pays 0 0 (typeOf code) := by
  unfold typeOf
  split
  · exact Pays.pure
  · exact Pays.throw _

theorem pays_varint (w : Varint.Width) : Pays 1 0 (onInput (Varint.read w)) :=
  Pays.onInput (Noted.takes_readGroups w.top w.groups)

theorem pays_signed (w : Varint.Width) : Pays 1 0 (onInput (Varint.readSigned w)) :=
  Pays.onInput ((Noted.takes_readGroups w.top w.groups).bind fun _ _ => Nat.le_refl _)

theorem pays_checked (max : Reader (Noted Nat Bytes) → Nat) : Pays 1 0 (do
    let m ← onInput (Varint.read .w32)
    let r ← get
    if max r < m then throw (.lengthExceeded m (max r)) else return m) :=
  (pays_varint .w32).bind fun m => Pays.get fun r => by
    split
    · exact Pays.throw _
    · exact Pays.pure

theorem pays_readLength : Pays 1 0 readLength := pays_checked fun r => r.limits.maxString

theorem pays_readSize : Pays 1 0 readSize := pays_checked fun r => r.limits.maxContainer

theorem pays_readByte : Pays 1 0 readByte := Pays.onInput Noted.takes_readByte

theorem pays_bool : Pays 1 0 bool := by
  intro r hidle
  rw [bool_of_idle hidle]
  exact pays_readByte.map _ r hidle

theorem pays_i32 : Pays 1 0 i32 := (pays_signed .w32).map Int32.ofInt

theorem pays_double : Pays 1 0 double :=
  ((Pays.onInput (Noted.takes_withSpan 8)).mono (by decide) (Nat.le_refl 0)).bind fun _ => by
    split
    · exact Pays.throw (α := UInt64) _
    · exact Pays.pure

theorem pays_binaryBytes : Pays 1 0 binaryBytes :=
  pays_readLength.bind fun length =>
    (Pays.onInput (Noted.takes_withSpan length)).mono (Nat.zero_le _) (Nat.zero_le _)

theorem pays_collectionBegin : Pays 1 0 collectionBegin := by
  refine pays_readByte.bind fun b => (pays_typeOf _).after fun element => Pays.map ?_ _
  unfold collectionSize
  split
  · exact pays_readSize.mono (Nat.zero_le _) (Nat.zero_le _)
  · exact Pays.pure

theorem pays_mapBegin : Pays 1 0 mapBegin := by
  refine pays_readSize.bind fun size => ?_
  split
  · exact Pays.pure
  · refine Pays.mono (g := 1) (l := 0) (pays_readByte.bind fun b => ?_) (Nat.zero_le _) (Nat.zero_le _)
    exact (pays_typeOf _).after fun key => (pays_typeOf _).after fun val => Pays.pure

theorem pays_fieldId (step : Nat) : Pays 0 0 (fieldId step) := by
  unfold fieldId
  split
  · exact (pays_i32.map Int32.toInt16).mono (Nat.zero_le _) (Nat.le_refl 0)
  · exact Pays.get fun _ => Pays.pure

theorem pays_structBegin : Pays 0 0 structBegin := by
  intro r hidle
  refine ends_get ?_
  by_cases hdepth : r.limits.maxDepth ≤ r.depth
  · rw [if_pos hdepth]
    exact Nat.le_refl _
  · rw [if_neg hdepth]
    exact ⟨hidle, Nat.le_refl _⟩

theorem pays_structEnd : Pays 0 0 structEnd := by
  intro r hidle
  refine ends_get ?_
  cases r.parents with
  | nil => exact Nat.le_refl _
  | cons id parents => exact ⟨hidle, Nat.le_refl _⟩

/-- A field header takes a byte, whether or not it brings a boolean along. -/
theorem ends_fieldBegin {r : Reader (Noted Nat Bytes)} (hidle : r.pendingBool = none) : Ends
    (fun o r' => r'.input.account + 1 ≤ r.input.account ∧
      (r'.pendingBool = none ∨ ∃ field, o = some field ∧ field.type = .bool))
    (fun r' => r'.input.account ≤ r.input.account) (fieldBegin r) := by
  refine ends_bind (pays_readByte r hidle) ?_
  rintro b t ⟨hidle₁, ht⟩
  dsimp only
  split
  · exact ⟨ht, Or.inl hidle₁⟩
  refine ends_bind ((pays_typeOf _ t hidle₁).mono (fun _ _ h => h) fun _ h => by omega) ?_
  rintro type u ⟨hidle₂, hu⟩
  split
  · show u.input.account ≤ _
    omega
  refine ends_bind ((pays_fieldId _ u hidle₂).mono (fun _ _ h => h) fun _ h => by omega) ?_
  rintro id v ⟨hidle₃, hv⟩
  refine ⟨(by omega : v.input.account + 1 ≤ r.input.account), ?_⟩
  by_cases hbool : type = .bool
  · exact Or.inr ⟨⟨id, type⟩, rfl, hbool⟩
  · left
    show (if type = .bool then _ else v.pendingBool) = none
    rw [if_neg hbool]
    exact hidle₃

/-! ### Values -/

/-- A reading of values, each of which costs one and pays for it; one that takes the boolean of its field costs one. -/
structure PaysValues (value : WireType → Reading (Noted Nat Bytes) Value) : Prop where
  plain (type : WireType) : Pays 0 1 (value type)
  pending {r : Reader (Noted Nat Bytes)} {b : Bool} : r.pendingBool = some b →
    Ends (fun _ r' => r'.pendingBool = none ∧ r'.input.account ≤ r.input.account + 1)
      (fun r' => r'.input.account ≤ r.input.account + 1) (value .bool r)

theorem pays_replicate {item : Reading (Noted Nat Bytes) α} (h : Pays 0 1 item) : ∀ count, Pays 0 1 (replicate item count)
  | 0 => Pays.pure
  | count + 1 => h.bind_of (fun a => (pays_replicate h count).map (a :: ·)) (Nat.le_refl 0) (Nat.le_refl 1)
    (Nat.le_refl 1)

namespace PaysValues

variable {value : WireType → Reading (Noted Nat Bytes) Value}

/-- The header of a field pays for the value, which may take nothing. -/
theorem fields (h : PaysValues value) : ∀ rounds, Pays 1 0 (fields value rounds)
  | 0 => Pays.throw _
  | rounds + 1 => by
    intro r hidle
    refine ends_bind (ends_fieldBegin hidle) ?_
    rintro o t ⟨ht, hpending⟩
    cases o with
    | none =>
      obtain hidle' | ⟨_, ⟨⟩, _⟩ := hpending
      exact ⟨hidle', ht⟩
    | some field =>
      have hvalue : Ends (fun _ u => u.pendingBool = none ∧ u.input.account ≤ t.input.account + 1)
          (fun u => u.input.account ≤ t.input.account + 1) (value field.type t) := by
        cases hp : t.pendingBool with
        | none => exact (h.plain field.type t hp).mono (fun _ _ hu => ⟨hu.1, by omega⟩) fun _ hu => hu
        | some b =>
          obtain hidle' | ⟨_, ⟨⟩, hbool⟩ := hpending
          · cases hp.symm.trans hidle'
          · rw [hbool]
            exact h.pending hp
      refine ends_bind (hvalue.mono (fun _ _ hu => hu) fun _ hu => by omega) ?_
      rintro v u ⟨hidle', hu⟩
      have hothers := (h.fields rounds).map ((field.id, v) :: ·)
      exact (hothers u hidle').mono (fun _ _ hw => ⟨hw.1, by omega⟩) fun _ hw => by omega

theorem structOf (h : PaysValues value) (rounds : Nat) : Pays 1 0 (structOf value rounds) :=
  pays_structBegin.after fun _ => (h.fields rounds).bind fun record =>
    (pays_structEnd.map fun _ => record).mono (Nat.le_refl 0) (Nat.zero_le 1)

theorem collectionOf (h : PaysValues value) (make : WireType → List Value → Value) :
    Pays 1 0 (collectionOf make value) :=
  pays_collectionBegin.bind fun header =>
    (pays_replicate (h.plain header.element) header.size).map (make header.element)

theorem mapOf (h : PaysValues value) : Pays 1 0 (mapOf value) := by
  have hentry : ∀ key val, Pays 0 1 (entryOf value key val) := fun key val =>
    (h.plain key).bind_of (fun k => (h.plain val).map (Prod.mk k)) (Nat.le_refl 0) (Nat.le_refl 1) (Nat.le_refl 1)
  refine pays_mapBegin.bind fun header => ?_
  unfold entriesOf
  split
  · exact (pays_replicate (hentry _ _) header.size).map _
  · exact Pays.pure

end PaysValues

/-- The boolean of a field is begun with as any value, and it takes nothing. -/
theorem ends_valueAt_pending (rounds maxDepth depth : Nat) {r : Reader (Noted Nat Bytes)} {b : Bool}
    (hb : r.pendingBool = some b) : Ends
      (fun _ r' => r'.pendingBool = none ∧ r'.input.account ≤ r.input.account + 1)
      (fun r' => r'.input.account ≤ r.input.account + 1) (valueAt counting rounds maxDepth depth .bool r) := by
  have hbegun := account_begun r
  rw [valueAt.eq_def]
  by_cases hdeep : maxDepth < depth
  · rw [if_pos hdeep]
    exact Nat.le_of_eq hbegun
  · rw [if_neg hdeep]
    have hbool : bool r.begun = .ok b { r.begun with pendingBool := none } := bool_of_pending hb
    show Ends _ _ ((do return Value.bool (← bool)) r.begun)
    rw [bind_of_ok hbool]
    exact ⟨rfl, Nat.le_of_eq hbegun⟩

theorem paysValues_valueAt (rounds maxDepth depth : Nat) : PaysValues (valueAt counting rounds maxDepth depth) := by
  refine ⟨fun type => ?_, ends_valueAt_pending rounds maxDepth depth⟩
  rw [valueAt.eq_def]
  refine Pays.counted ?_ depth
  by_cases hdeep : maxDepth < depth
  · rw [if_pos hdeep]
    exact Pays.get fun _ => Pays.throw _
  rw [if_neg hdeep]
  have ih := paysValues_valueAt rounds maxDepth (depth + 1)
  cases type with
  | stop => exact Pays.throw _
  | bool => exact pays_bool.map Value.bool
  | byte => exact (pays_readByte.map UInt8.toInt8).map Value.byte
  | i16 => exact (pays_i32.map Int32.toInt16).map Value.i16
  | i32 => exact pays_i32.map Value.i32
  | i64 => exact ((pays_signed .w64).map Int64.ofInt).map Value.i64
  | double => exact pays_double.map Value.double
  | binary => exact pays_binaryBytes.map Value.binary
  | list => exact ih.collectionOf .list
  | set => exact ih.collectionOf .set
  | map => exact ih.mapOf
  | struct => exact (ih.structOf rounds).map Value.struct
termination_by maxDepth + 1 - depth

/-! ### Whole readings -/

/-- The number of values that are begun from the reader `r` on, as the reading tells of them. -/
def calls (told : Reading (Noted Nat Bytes) α) (r : Reader Bytes) : Nat := (left (told r.tallied)).input.notes

/-- The number of bytes that a reading takes, whether it succeeds or not. -/
def taken (x : Reading Bytes α) (r : Reader Bytes) : Nat := r.input.length - (left (x r)).input.length

/-- The reading goes as it does when it is told of, and with `own` values besides those that it is told of, it begins
with one value more than it takes bytes at most. -/
structure Frugal (own : Nat) (told : Reading (Noted Nat Bytes) α) (x : Reading Bytes α) (r : Reader Bytes) : Prop where
  same : onState untallied (told r.tallied) = x r
  calls_le : own + calls told r ≤ taken x r + 1

theorem Frugal.of_account {own : Nat} {told : Reading (Noted Nat Bytes) α} {x : Reading Bytes α} {r : Reader Bytes}
    (same : onState untallied (told r.tallied) = x r)
    (h : (left (told r.tallied)).input.account + own ≤ r.input.length + 1) : Frugal own told x r := by
  refine ⟨same, ?_⟩
  unfold calls taken
  rw [← same, left_onState]
  show own + (left (told r.tallied)).input.notes ≤
    r.input.length - (left (told r.tallied)).input.input.length + 1
  unfold Noted.account at h
  omega

theorem Pays.account_le {gain loss : Nat} {told : Reading (Noted Nat Bytes) α} (h : Pays gain loss told)
    {r : Reader Bytes} (hidle : r.pendingBool = none) : (left (told r.tallied)).input.account ≤ r.input.length + loss := by
  have haccount : r.tallied.input.account = r.input.length := Nat.zero_add _
  have hends := h r.tallied hidle
  rw [haccount] at hends
  have hbound : Ends (fun _ r' => r'.input.account ≤ r.input.length + loss)
      (fun r' => r'.input.account ≤ r.input.length + loss) (told r.tallied) :=
    hends.mono (fun _ _ hr => by omega) fun _ hr => hr
  exact hbound.left

theorem frugal_record {r : Reader Bytes} (idle : r.pendingBool = none) : Frugal 1 (recordTold counting) record r := by
  have hpays : Pays 1 0 (recordTold counting) := Pays.get fun s =>
    (paysValues_valueAt s.rounds s.limits.maxDepth 1).structOf s.rounds
  exact .of_account (same_record r) (Nat.succ_le_succ (hpays.account_le idle))

theorem frugal_value {r : Reader Bytes} (type : WireType) (idle : r.pendingBool = none) :
    Frugal 0 (valueTold counting type) (value type) r := by
  have hpays : Pays 0 1 (valueTold counting type) := Pays.get fun s =>
    (paysValues_valueAt s.rounds s.limits.maxDepth 0).plain type
  exact .of_account (same_value type r) (hpays.account_le idle)

theorem frugal_skip {r : Reader Bytes} (type : WireType) (idle : r.pendingBool = none) :
    Frugal 0 (skipTold counting type) (skip type) r := by
  have hpays : Pays 0 1 (skipTold counting type) := by
    rw [skipTold_eq_discard, discard_eq]
    exact Pays.map (Pays.get fun s => (paysValues_valueAt s.rounds s.limits.maxDepth 0).plain type) _
  exact .of_account (same_skip type r) (hpays.account_le idle)

/-- **Input is not amplified**: a record or value that is read has no more values inside, itself and the bytes of its
binaries counted, than bytes were taken for it, whatever sizes are declared.  And whether reading or passing over a
value succeeds or fails, it begins with one value more than it takes bytes at most; a record is one itself. -/
theorem not_amplified (r : Reader Bytes) (idle : r.pendingBool = none) :
    (∀ s r', record r = .ok s r' → Value.weight (Value.struct s).parts + r'.input.length ≤ r.input.length) ∧
    (∀ type v r', value type r = .ok v r' → Value.weight v.parts + r'.input.length ≤ r.input.length) ∧
    Frugal 1 (recordTold counting) record r ∧
    ∀ type, Frugal 0 (valueTold counting type) (value type) r ∧ Frugal 0 (skipTold counting type) (skip type) r :=
  ⟨fun _ _ h => weight_record_le idle h, fun _ _ _ h => weight_value_le idle h, frugal_record idle,
    fun type => ⟨frugal_value type idle, frugal_skip type idle⟩⟩

/-- A list that declares sixteen million numbers and has one is given up at the third value begun with, after six bytes;
a record with a binary and a boolean weighs five of the six bytes it takes. -/
theorem not_amplified_declared :
    let declared : Reader Bytes := { input := [245, 128, 128, 128, 8, 2], limits := {}, parents := [3], lastId := 5 }
    let plain : Reader Bytes := { input := [24, 2, 7, 7, 17, 0], limits := {} }
    let s : Record := [(1, .binary [7, 7]), (2, .bool true)]
    (declared.pendingBool = none ∧ plain.pendingBool = none) ∧
      (calls (valueTold counting .list) declared = 3 ∧ taken (value .list) declared = 6 ∧
        3 ≤ taken (value .list) declared + 1) ∧
      record plain = .ok s { plain with input := [] } ∧ Value.weight (Value.struct s).parts ≤ 6 := by
  intro declared plain s
  have hcalls : calls (valueTold counting .list) declared = 3 := by cbv
  have htaken : taken (value .list) declared = 6 := by cbv
  have hread : record plain = .ok s { plain with input := [] } := by cbv
  obtain ⟨-, -, -, hvalues⟩ := not_amplified declared rfl
  have hfrugal := (hvalues .list).1.calls_le
  rw [hcalls, Nat.zero_add] at hfrugal
  exact ⟨⟨rfl, rfl⟩, ⟨hcalls, htaken, hfrugal⟩, hread, (not_amplified plain rfl).1 s _ hread⟩

end Reader

end CompactWire

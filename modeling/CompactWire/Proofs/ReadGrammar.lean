import CompactWire.Proofs.Grammar
import CompactWire.Proofs.Reading
import CompactWire.Record
import CompactWire.Value.Height

/-!
# CompactWire.Proofs.ReadGrammar — a reader takes exactly what the grammar writes

`readsValues_valueWithin`: where no boolean is pending, a reader of a type takes exactly the ways to write a value of
that type which keep to the limits, and it leaves the session as it found it.  The levels it may open bound the height
of the value, and the structs it may open bound its structs; both are said of the value alone.  `record_eq_ok` says the
same of a whole record, `Record.decode_eq_ok` of a byte string that has to end with it.

The induction is on the levels.  What lies inside a value is read by loops, and each loop has its own lemma over any
reader of the values inside: `parses_replicate` for elements and entries, `fields_eq_ok` for fields.
-/

namespace CompactWire

open Outcome

namespace Reader

variable {α : Type} {n : Nat} {r : Reader Bytes}

/-! ### Elements one after the other -/

/-- Forms of all elements of a list, one behind the other. -/
inductive Run (P : α → Bytes → Prop) : List α → Bytes → Prop
  | nil : Run P [] []
  | cons {a : α} {as : List α} {bs rest : Bytes} (first : P a bs) (others : Run P as rest) :
    Run P (a :: as) (bs ++ rest)

theorem run_cons {P : α → Bytes → Prop} {a : α} {as : List α} {bs : Bytes} :
    Run P (a :: as) bs ↔ ∃ bs₁ bs₂, bs = bs₁ ++ bs₂ ∧ P a bs₁ ∧ Run P as bs₂ :=
  ⟨fun h => by cases h with | cons hp ho => exact ⟨_, _, rfl, hp, ho⟩, fun ⟨_, _, hbs, hp, ho⟩ => hbs ▸ .cons hp ho⟩

theorem parses_replicate {item : Reading Bytes α} {P : α → Bytes → Prop} (h : Parses n r item P) :
    ∀ count, Parses n r (replicate item count) (fun as bs => as.length = count ∧ Run P as bs)
  | 0 => (Parses.pure []).congr fun as bs => by
    constructor
    · rintro ⟨rfl, rfl⟩
      exact ⟨rfl, .nil⟩
    · rintro ⟨hl, hr⟩
      cases hr with
      | nil => exact ⟨rfl, rfl⟩
      | cons => cases hl
  | count + 1 => (h.bind fun a _ _ => (parses_replicate h count).map (a :: ·)).congr fun as bs => by
    constructor
    · rintro ⟨a, bs₁, bs₂, rfl, hp, as, rfl, hl, hr⟩
      exact ⟨by rw [List.length_cons, hl], .cons hp hr⟩
    · rintro ⟨hl, hr⟩
      cases hr with
      | nil => cases hl
      | cons hp ho => exact ⟨_, _, _, rfl, hp, _, rfl, Nat.succ.inj hl, ho⟩

/-! ### What is read as a value -/

/-- The forms of the values of a type that a reader takes where it may open `levels` more levels. -/
def ValueForm (r : Reader Bytes) (levels : Nat) (type : WireType) (v : Value) (bs : Bytes) : Prop :=
  v.type = type ∧ v.height ≤ levels ∧ v.structHeight ≤ r.limits.maxDepth - r.depth ∧
    Phrase.Written (some r.limits) (.value v) bs

theorem run_items {levels : Nat} {element : WireType} {vs : List Value} {bs : Bytes} :
    Run (ValueForm r levels element) vs bs ↔ (∀ v ∈ vs, v.type = element) ∧ Value.itemHeight vs ≤ levels ∧
      Value.itemStructHeight vs ≤ r.limits.maxDepth - r.depth ∧ Phrase.Written (some r.limits) (.items vs) bs := by
  induction vs generalizing bs with
  | nil =>
    constructor
    · rintro ⟨⟩
      exact ⟨by simp, Nat.zero_le _, Nat.zero_le _, .noItems⟩
    · rintro ⟨-, -, -, hw⟩
      cases hw
      exact .nil
  | cons v vs ih =>
    simp only [run_cons, ih, List.forall_mem_cons, Value.itemHeight, Value.itemStructHeight, Nat.max_le]
    constructor
    · rintro ⟨bs₁, bs₂, rfl, ⟨ht, hh, hs, hw⟩, hts, hhs, hss, hws⟩
      exact ⟨⟨ht, hts⟩, ⟨hh, hhs⟩, ⟨hs, hss⟩, .item hw hws⟩
    · rintro ⟨⟨ht, hts⟩, ⟨hh, hhs⟩, ⟨hs, hss⟩, hw⟩
      cases hw with
      | item hw hws => exact ⟨_, _, rfl, ⟨ht, hh, hs, hw⟩, hts, hhs, hss, hws⟩

/-- The forms of an entry of a map, the key before the value. -/
def EntryForm (r : Reader Bytes) (levels : Nat) (key val : WireType) (e : Value × Value) (bs : Bytes) : Prop :=
  ∃ bs₁ bs₂, bs = bs₁ ++ bs₂ ∧ ValueForm r levels key e.1 bs₁ ∧ ValueForm r levels val e.2 bs₂

theorem run_entries {levels : Nat} {key val : WireType} {es : List (Value × Value)} {bs : Bytes} :
    Run (EntryForm r levels key val) es bs ↔ (∀ e ∈ es, e.1.type = key ∧ e.2.type = val) ∧
      Value.entryHeight es ≤ levels ∧ Value.entryStructHeight es ≤ r.limits.maxDepth - r.depth ∧
      Phrase.Written (some r.limits) (.entries es) bs := by
  induction es generalizing bs with
  | nil =>
    constructor
    · rintro ⟨⟩
      exact ⟨by simp, Nat.zero_le _, Nat.zero_le _, .noEntries⟩
    · rintro ⟨-, -, -, hw⟩
      cases hw
      exact .nil
  | cons e es ih =>
    obtain ⟨k, v⟩ := e
    simp only [run_cons, ih, List.forall_mem_cons, Value.entryHeight, Value.entryStructHeight, Nat.max_le]
    constructor
    · rintro ⟨_, bs₂, rfl, ⟨b₁, b₂, rfl, ⟨htk, hhk, hsk, hwk⟩, htv, hhv, hsv, hwv⟩, hts, hhs, hss, hws⟩
      exact ⟨⟨⟨htk, htv⟩, hts⟩, ⟨⟨hhk, hhv⟩, hhs⟩, ⟨⟨hsk, hsv⟩, hss⟩, .entry hwk hwv hws⟩
    · rintro ⟨⟨⟨htk, htv⟩, hts⟩, ⟨⟨hhk, hhv⟩, hhs⟩, ⟨⟨hsk, hsv⟩, hss⟩, hw⟩
      cases hw with
      | entry hwk hwv hws =>
        exact ⟨_, _, rfl, ⟨_, _, rfl, ⟨htk, hhk, hsk, hwk⟩, htv, hhv, hsv, hwv⟩, hts, hhs, hss, hws⟩

/-! ### Structs -/

theorem structBegin_eq_ok {ι : Type} {r r' : Reader ι} : structBegin r = .ok () r' ↔
    r.depth < r.limits.maxDepth ∧ r' = { r with parents := r.lastId :: r.parents, lastId := 0 } := by
  unfold structBegin
  rw [bind_eq_ok]
  constructor
  · rintro ⟨_, _, ⟨⟩, h⟩
    split at h
    · cases h
    · cases h
      exact ⟨by omega, rfl⟩
  · rintro ⟨hd, rfl⟩
    refine ⟨r, r, rfl, ?_⟩
    rw [if_neg (by omega)]
    rfl

/-- The reader behind a field header with the given code. -/
def afterField (r : Reader Bytes) (field : FieldHeader) (code : Nat) (rest : Bytes) : Reader Bytes :=
  { r with
    input := rest
    lastId := field.id
    pendingBool := if field.type = .bool then some (decide (code = 1)) else r.pendingBool }

theorem parses_fieldId (step : Nat) : Parses n r (fieldId step) (FieldIdForm r.lastId step) := by
  unfold fieldId FieldIdForm
  split
  · exact parses_i16
  · exact Parses.get (fun _ => rfl) (Parses.pure (r.lastId + Int16.ofNat step))

theorem fieldBegin_eq_ok {o : Option FieldHeader} {r' : Reader Bytes} : fieldBegin r = .ok o r' ↔
    (∃ rest, r.input = 0 :: rest ∧ o = none ∧ r' = { r with input := rest }) ∨
    ∃ field code head rest, r.input = head ++ rest ∧ o = some field ∧ field.type ≠ .stop ∧
      WireType.HasCode field.type code ∧ FieldWritten r.lastId code field.id head ∧
      r' = afterField r field code rest := by
  unfold fieldBegin
  rw [bind_eq_ok]
  constructor
  · rintro ⟨b, t, hb, h⟩
    obtain ⟨_, rest, hin, rfl, rfl⟩ := (parses_readByte r.input b t (Nat.le_refl _)).1 hb
    split at h
    · rename_i h0
      cases h
      rw [show b = 0 from UInt8.toNat_inj.1 h0] at hin
      exact Or.inl ⟨rest, hin, rfl, rfl⟩
    · obtain ⟨type, t, ht, h⟩ := bind_eq_ok.1 h
      obtain ⟨_, mid, rfl, ⟨hcode, rfl⟩, rfl⟩ := (parses_typeOf _ rest type t (Nat.le_refl _)).1 ht
      split at h
      · cases h
      · rename_i hstop
        obtain ⟨id, t, hid, h⟩ := bind_eq_ok.1 h
        obtain ⟨tail, rest, rfl, hform, rfl⟩ := (parses_fieldId _ mid id t (Nat.le_refl _)).1 hid
        cases h
        have hlt := b.toNat_lt
        refine Or.inr ⟨⟨id, type⟩, b.toNat % 16, b :: tail, rest, hin, rfl, hstop, hcode, ?_, rfl⟩
        exact fieldWritten_iff.2 ⟨b.toNat / 16, tail, by omega, by rw [nibbles_halves], hform⟩
  · rintro (⟨rest, hin, rfl, rfl⟩ | ⟨field, code, head, rest, hin, rfl, hstop, hcode, hw, rfl⟩)
    · have hread : readByte r = .ok 0 { r with input := rest } :=
        (parses_readByte r.input _ _ (Nat.le_refl _)).2 ⟨[0], rest, hin, rfl, rfl⟩
      exact ⟨0, { r with input := rest }, hread, rfl⟩
    · obtain ⟨step, tail, hstep, rfl, hform⟩ := fieldWritten_iff.1 hw
      have hlt := WireType.lt_of_ofCode? hcode
      obtain ⟨hhigh, hlow⟩ := halves_nibbles hstep hlt
      have hne : (nibbles step code).toNat ≠ 0 := by
        rw [toNat_nibbles hstep hlt]
        intro h0
        rw [show code = 0 by omega] at hcode
        exact hstop (Option.some.inj hcode).symm
      refine ⟨nibbles step code, { r with input := tail ++ rest },
        (parses_readByte r.input _ _ (Nat.le_refl _)).2 ⟨[_], _, hin, rfl, rfl⟩, ?_⟩
      rw [if_neg hne, hhigh, hlow, bind_eq_ok]
      have htype : typeOf code { r with input := tail ++ rest } = .ok field.type { r with input := tail ++ rest } :=
        (parses_typeOf code (tail ++ rest) _ _ (Nat.le_refl _)).2 ⟨[], _, rfl, ⟨hcode, rfl⟩, rfl⟩
      refine ⟨field.type, _, htype, ?_⟩
      rw [if_neg hstop]
      show (fieldId step >>= fun id => _) _ = _
      rw [bind_eq_ok]
      exact ⟨field.id, _, (parses_fieldId step _ _ _ (Nat.le_refl _)).2 ⟨tail, rest, rfl, hform, rfl⟩, rfl⟩

theorem afterField_of_ne_bool {field : FieldHeader} {code : Nat} {rest : Bytes} (h : field.type ≠ .bool) :
    afterField r field code rest = { r with input := rest, lastId := field.id } := by
  unfold afterField
  rw [if_neg h]

theorem pendingBool_afterField {field : FieldHeader} {code : Nat} {rest : Bytes} (h : field.type = .bool) :
    (afterField r field code rest).pendingBool = some (decide (code = 1)) :=
  if_pos h

/-- A reader of values, by type, that takes what the grammar writes for values of at most `levels` levels, and takes a
pending boolean for a value of the boolean type. -/
structure ReadsValues (n levels : Nat) (value : WireType → Reading Bytes Value) : Prop where
  plain : ∀ r type, r.pendingBool = none → Parses n r (value type) (ValueForm r levels type)
  pending : ∀ r b v r', r.pendingBool = some b →
    (value .bool r = .ok v r' ↔ 0 < levels ∧ v = .bool b ∧ r' = { r with pendingBool := none })

variable {levels : Nat} {value : WireType → Reading Bytes Value}

/-- One field: its header and then its value, which may be in the header. -/
theorem member_eq_ok (hv : ReadsValues n levels value) (hp : r.pendingBool = none) (hn : r.input.length ≤ n)
    {id : Int16} {v : Value} {r' : Reader Bytes} :
    (∃ field t, fieldBegin r = .ok (some field) t ∧ field.id = id ∧ value field.type t = .ok v r') ↔
      ∃ bs rest, r.input = bs ++ rest ∧ Phrase.MemberForm (some r.limits) r.lastId id v bs ∧ v.height ≤ levels ∧
        v.structHeight ≤ r.limits.maxDepth - r.depth ∧ r' = { r with input := rest, lastId := id } := by
  constructor
  · rintro ⟨field, t, ho, rfl, hval⟩
    rcases fieldBegin_eq_ok.1 ho with ⟨_, _, ⟨⟩, _⟩ | ⟨_, code, head, mid, hin, ⟨⟩, -, hcode, hw, rfl⟩
    by_cases hb : field.type = .bool
    · -- the header has brought the boolean along
      rw [hb] at hval hcode
      obtain ⟨hl, rfl, rfl⟩ := (hv.pending _ _ v r' (pendingBool_afterField hb)).1 hval
      rw [WireType.boolCode_of_ofCode? hcode] at hw
      refine ⟨head, mid, hin, Or.inl ⟨_, rfl, hw⟩, hl, Nat.zero_le _, ?_⟩
      rw [← hp]
      rfl
    · rw [afterField_of_ne_bool hb] at hval
      have hm : mid.length ≤ n := by rw [hin, List.length_append] at hn; omega
      obtain ⟨bs, rest, rfl, ⟨ht, hh, hs, hwv⟩, rfl⟩ :=
        (hv.plain { r with lastId := field.id } field.type hp mid v r' hm).1 hval
      rw [← ht] at hb
      rw [WireType.code_of_ofCode? hcode (ht ▸ hb), ← ht] at hw
      exact ⟨head ++ bs, rest, by rw [hin, List.append_assoc], Or.inr ⟨hb, head, bs, rfl, hw, hwv⟩, hh, hs, rfl⟩
  · rintro ⟨bs, rest, hin, ⟨b, rfl, hw⟩ | ⟨hb, head, tail, rfl, hw, hwv⟩, hh, hs, rfl⟩
    · refine ⟨⟨id, .bool⟩, afterField r ⟨id, .bool⟩ (WireType.boolCode b) rest, ?_, rfl, ?_⟩
      · exact fieldBegin_eq_ok.2 (Or.inr ⟨_, _, bs, rest, hin, rfl, by simp, WireType.ofCode?_boolCode b, hw, rfl⟩)
      · refine (hv.pending _ _ _ _ (pendingBool_afterField rfl)).2 ⟨hh, by cases b <;> rfl, ?_⟩
        rw [← hp]
        rfl
    · rw [List.append_assoc] at hin
      have hm : (tail ++ rest).length ≤ n := by rw [hin, List.length_append] at hn; omega
      refine ⟨⟨id, v.type⟩, afterField r ⟨id, v.type⟩ v.type.code (tail ++ rest), ?_, rfl, ?_⟩
      · exact fieldBegin_eq_ok.2
          (Or.inr ⟨_, _, head, _, hin, rfl, Value.type_ne_stop v, WireType.ofCode?_code _, hw, rfl⟩)
      · rw [afterField_of_ne_bool hb]
        exact (hv.plain { r with lastId := id } v.type hp _ v _ hm).2 ⟨tail, rest, rfl, ⟨rfl, hh, hs, hwv⟩, rfl⟩

theorem fields_eq_ok (hv : ReadsValues n levels value) : ∀ (rounds : Nat) (r : Reader Bytes) (fs : Record)
    (r' : Reader Bytes), r.pendingBool = none → r.input.length < rounds → r.input.length ≤ n →
      (fields value rounds r = .ok fs r' ↔ ∃ bs rest, r.input = bs ++ rest ∧
        Phrase.Written (some r.limits) (.fields r.lastId fs) bs ∧ Value.fieldHeight fs ≤ levels ∧
        Value.fieldStructHeight fs ≤ r.limits.maxDepth - r.depth ∧
        r' = { r with input := rest, lastId := Record.lastId r.lastId fs })
  | 0, _, _, _, _, h, _ => absurd h (Nat.not_lt_zero _)
  | rounds + 1, r, fs, r', hp, hr, hn => by
    unfold fields
    rw [bind_eq_ok]
    constructor
    · rintro ⟨o, t, ho, h⟩
      cases o with
      | none =>
        rcases fieldBegin_eq_ok.1 ho with ⟨rest, hin, -, rfl⟩ | ⟨_, _, _, _, _, ⟨⟩, _⟩
        cases h
        exact ⟨[0], rest, hin, .stop, Nat.zero_le _, Nat.zero_le _, rfl⟩
      | some field =>
        obtain ⟨v, t', hval, h⟩ := bind_eq_ok.1 h
        obtain ⟨others, u, hothers, h⟩ := bind_eq_ok.1 h
        cases h
        obtain ⟨bs₁, mid, hin, hm, hh, hs, rfl⟩ := (member_eq_ok hv hp hn).1 ⟨field, t, ho, rfl, hval⟩
        have hpos := hm.length_pos
        rw [hin, List.length_append] at hr hn
        obtain ⟨bs₂, rest, rfl, hws, hhs, hss, rfl⟩ :=
          (fields_eq_ok hv rounds { r with input := mid, lastId := field.id } others r' hp
            (by show mid.length < _; omega) (by show mid.length ≤ n; omega)).1 hothers
        exact ⟨bs₁ ++ bs₂, rest, by rw [hin, List.append_assoc], Phrase.written_fields_cons.2 ⟨_, _, rfl, hm, hws⟩,
          Nat.max_le.2 ⟨hh, hhs⟩, Nat.max_le.2 ⟨hs, hss⟩, rfl⟩
    · rintro ⟨bs, rest, hin, hw, hh, hs, rfl⟩
      cases fs with
      | nil =>
        rw [Phrase.written_fields_nil.1 hw] at hin
        exact ⟨none, _, fieldBegin_eq_ok.2 (Or.inl ⟨rest, hin, rfl, rfl⟩), rfl⟩
      | cons f fs =>
        obtain ⟨bs₁, bs₂, rfl, hm, hws⟩ := Phrase.written_fields_cons.1 hw
        obtain ⟨hh, hhs⟩ := Nat.max_le.1 hh
        obtain ⟨hs, hss⟩ := Nat.max_le.1 hs
        have hpos := hm.length_pos
        rw [List.append_assoc] at hin
        obtain ⟨field, t, ho, hid, hval⟩ := (member_eq_ok hv hp hn).2 ⟨bs₁, bs₂ ++ rest, hin, hm, hh, hs, rfl⟩
        rw [hin, List.length_append] at hr hn
        have hothers := (fields_eq_ok hv rounds { r with input := bs₂ ++ rest, lastId := f.1 } fs _ hp
          (by show (bs₂ ++ rest).length < _; omega) (by show (bs₂ ++ rest).length ≤ n; omega)).2
          ⟨bs₂, rest, rfl, hws, hhs, hss, rfl⟩
        refine ⟨some field, t, ho, bind_eq_ok.2 ⟨f.2, _, hval, bind_eq_ok.2 ⟨fs, _, hothers, ?_⟩⟩⟩
        rw [hid]
        rfl

theorem parses_structOf {rounds : Nat} (hv : ReadsValues n levels value) (hp : r.pendingBool = none) (hr : n < rounds) :
    Parses n r (structOf value rounds) (fun fs bs => Value.fieldHeight fs ≤ levels ∧
      Value.fieldStructHeight fs + 1 ≤ r.limits.maxDepth - r.depth ∧
      Phrase.Written (some r.limits) (.fields 0 fs) bs) := by
  intro input fs r' hn
  -- the reader inside the struct
  let inside : Reader Bytes := { r with input, parents := r.lastId :: r.parents, lastId := 0 }
  have hroom : inside.limits.maxDepth - inside.depth = r.limits.maxDepth - (r.depth + 1) := rfl
  have hin := fun fs t => fields_eq_ok hv rounds inside fs t hp (Nat.lt_of_le_of_lt hn hr) hn
  unfold structOf
  rw [bind_eq_ok]
  refine ⟨?_, ?_⟩
  · rintro ⟨_, t, hbegin, h⟩
    obtain ⟨hd, rfl⟩ := structBegin_eq_ok.1 hbegin
    replace hd : r.depth < r.limits.maxDepth := hd
    obtain ⟨fs, t, hfields, h⟩ := bind_eq_ok.1 h
    obtain ⟨bs, rest, rfl, hw, hh, hs, rfl⟩ := (hin fs t).1 hfields
    cases h
    rw [hroom] at hs
    exact ⟨bs, rest, rfl, ⟨hh, by omega, hw⟩, rfl⟩
  · rintro ⟨bs, rest, rfl, ⟨hh, hs, hw⟩, rfl⟩
    have hfields := (hin fs _).2 ⟨bs, rest, rfl, hw, hh, by rw [hroom]; omega, rfl⟩
    exact ⟨(), inside, structBegin_eq_ok.2 ⟨by show r.depth < r.limits.maxDepth; omega, rfl⟩,
      bind_eq_ok.2 ⟨fs, _, hfields, rfl⟩⟩

/-! ### Values -/

/-- A value that holds no others. -/
theorem parses_leaf {α : Type} {x : Reading Bytes α} {P : α → Bytes → Prop} (h : Parses n r x P) {mk : α → Value}
    {type : WireType} (hmk : ∀ v, v.type = type ↔ ∃ a, v = mk a) (hh : ∀ a, (mk a).height = 1)
    (hs : ∀ a, (mk a).structHeight = 0)
    (hw : ∀ a bs, Phrase.Written (some r.limits) (.value (mk a)) bs ↔ P a bs) :
    Parses n r (do return mk (← x)) (ValueForm r (levels + 1) type) := by
  refine (h.map mk).congr fun v bs => ⟨?_, ?_⟩
  · rintro ⟨a, rfl, hp⟩
    exact ⟨(hmk _).2 ⟨a, rfl⟩, by rw [hh]; omega, by rw [hs]; omega, (hw a bs).2 hp⟩
  · rintro ⟨ht, -, -, hv⟩
    obtain ⟨a, rfl⟩ := (hmk v).1 ht
    exact ⟨a, rfl, (hw a bs).1 hv⟩

/-- A list or a set. -/
theorem parses_collection {item : WireType → Reading Bytes Value}
    (hitem : ∀ type, Parses n r (item type) (ValueForm r levels type)) {mk : WireType → List Value → Value}
    {type : WireType} (hmk : ∀ v, v.type = type ↔ ∃ element vs, v = mk element vs)
    (hh : ∀ element vs, (mk element vs).height = Value.itemHeight vs + 1)
    (hs : ∀ element vs, (mk element vs).structHeight = Value.itemStructHeight vs)
    (hw : ∀ element vs bs, Phrase.Written (some r.limits) (.value (mk element vs)) bs ↔
      Phrase.CollectionForm (some r.limits) element vs bs) :
    Parses n r (collectionOf mk item) (ValueForm r (levels + 1) type) := by
  refine (parses_collectionBegin.bind fun header _ _ =>
    (parses_replicate (hitem header.element) header.size).map (mk header.element)).congr fun v bs => ⟨?_, ?_⟩
  · rintro ⟨⟨element, size⟩, head, tail, rfl, hhead, vs, rfl, rfl, hrun⟩
    obtain ⟨ht, hhs, hss, hws⟩ := run_items.1 hrun
    exact ⟨(hmk _).2 ⟨element, vs, rfl⟩, by rw [hh]; exact Nat.succ_le_succ hhs, by rw [hs]; exact hss,
      (hw _ _ _).2 ⟨head, tail, rfl, hhead, ht, hws⟩⟩
  · rintro ⟨ht, hhs, hss, hv⟩
    obtain ⟨element, vs, rfl⟩ := (hmk v).1 ht
    obtain ⟨head, tail, rfl, hhead, hts, hws⟩ := (hw _ _ _).1 hv
    rw [hh] at hhs
    rw [hs] at hss
    exact ⟨⟨element, vs.length⟩, head, tail, rfl, hhead, vs, rfl, rfl,
      run_items.2 ⟨hts, Nat.le_of_succ_le_succ hhs, hss, hws⟩⟩

/-- A map. -/
theorem parses_mapOf {item : WireType → Reading Bytes Value}
    (hitem : ∀ type, Parses n r (item type) (ValueForm r levels type)) :
    Parses n r (mapOf item) (ValueForm r (levels + 1) .map) := by
  have hentry : ∀ key val, Parses n r (entryOf item key val) (EntryForm r levels key val) := by
    intro key val
    refine ((hitem key).bind fun k _ _ => (hitem val).map (Prod.mk k)).congr fun e bs => ⟨?_, ?_⟩
    · rintro ⟨k, bs₁, bs₂, rfl, hk, v, rfl, hv⟩
      exact ⟨bs₁, bs₂, rfl, hk, hv⟩
    · rintro ⟨bs₁, bs₂, rfl, hk, hv⟩
      exact ⟨e.1, bs₁, bs₂, rfl, hk, e.2, rfl, hv⟩
  have hbehind : ∀ header bs, MapWritten r.limits header bs → Parses n r (entriesOf item header)
      (fun v bs => (header = ⟨none, none, 0⟩ ∧ v = .map none none [] ∧ bs = []) ∨ ∃ key val es,
        header = ⟨some key, some val, es.length⟩ ∧ v = .map (some key) (some val) es ∧
        Run (EntryForm r levels key val) es bs) := by
    rintro _ _ (⟨_⟩ | @⟨key, val, size, _, _, _, -, -, -, -, -⟩)
    · refine (Parses.pure _).congr fun v bs => ⟨?_, ?_⟩
      · exact fun h => Or.inl ⟨rfl, h⟩
      · rintro (⟨-, h⟩ | ⟨_, _, _, ⟨⟩, _⟩)
        exact h
    · refine ((parses_replicate (hentry key val) size).map (Value.map (some key) (some val))).congr
        fun v bs => ⟨?_, ?_⟩
      · rintro ⟨es, rfl, rfl, hrun⟩
        exact Or.inr ⟨key, val, es, rfl, rfl, hrun⟩
      · rintro (⟨⟨⟩, _⟩ | ⟨_, _, es, ⟨⟩, rfl, hrun⟩)
        exact ⟨es, rfl, rfl, hrun⟩
  refine (parses_mapBegin.bind hbehind).congr fun v bs => ⟨?_, ?_⟩
  · rintro ⟨_, head, tail, rfl, hhead, ⟨rfl, rfl, rfl⟩ | ⟨key, val, es, rfl, rfl, hrun⟩⟩
    · cases hhead with
      | empty hs =>
      refine ⟨rfl, Nat.succ_le_succ (Nat.zero_le _), Nat.zero_le _, ?_⟩
      rw [List.append_nil]
      exact .emptyMap hs
    · obtain ⟨ht, hhs, hss, hws⟩ := run_entries.1 hrun
      cases hhead with
      | full hne hs hle hk hv =>
        refine ⟨rfl, Nat.succ_le_succ hhs, hss, ?_⟩
        rw [List.append_assoc]
        exact .map (fun h => hne (by rw [h]; rfl)) hs hle hk hv ht hws
  · rintro ⟨ht, hhs, hss, hw⟩
    cases hw with
    | emptyMap hs =>
      exact ⟨_, bs, [], (List.append_nil bs).symm, .empty hs, Or.inl ⟨rfl, rfl, rfl⟩⟩
    | @map key val es _ _ head tail hne hs hle hk hv hts hws =>
      refine ⟨⟨some key, some val, es.length⟩, head ++ [_], tail, by rw [List.append_assoc]; rfl,
        .full (by simpa using hne) hs hle hk hv, Or.inr ⟨key, val, es, rfl, rfl, ?_⟩⟩
      exact run_entries.2 ⟨hts, Nat.le_of_succ_le_succ hhs, hss, hws⟩
    | _ => cases ht

theorem parses_bool (hp : r.pendingBool = none) :
    Parses n r bool (fun b bs => ∃ c : UInt8, b = decide (c = 1) ∧ bs = [c]) := by
  refine Parses.get (y := do return decide ((← readByte) = 1)) (fun input => ?_)
    (parses_readByte.map fun c => decide (c = 1))
  dsimp only
  rw [hp]

theorem bool_of_idle {ι span : Type} [Input ι span] {r : Reader ι} (hp : r.pendingBool = none) :
    bool r = (do return decide ((← readByte) = 1)) r := by
  refine (bind_of_ok (x := get) (a := r) rfl).trans ?_
  rw [hp]

theorem bool_of_pending {ι span : Type} [Input ι span] {r : Reader ι} {b : Bool} (hb : r.pendingBool = some b) :
    bool r = .ok b { r with pendingBool := none } := by
  unfold bool
  refine (bind_of_ok (x := get) (a := r) rfl).trans ?_
  rw [hb]
  rfl

/-- **Values**: with any number of levels a reader takes exactly what the grammar writes for values of as many. -/
theorem readsValues_valueWithin {rounds : Nat} (hr : n < rounds) :
    ∀ levels, ReadsValues n levels (valueWithin rounds levels)
  | 0 => by
    refine ⟨fun r type _ => ?_, fun r b v r' _ => ⟨?_, ?_⟩⟩
    · refine (Parses.get (fun _ => rfl) (Parses.throw (.depthExceeded r.limits.maxDepth))).congr fun v bs => ⟨?_, ?_⟩
      · exact fun h => h.elim
      · rintro ⟨-, hh, -⟩
        exact absurd (Value.height_pos v) (Nat.not_lt.2 hh)
    · intro h
      cases h
    · rintro ⟨h, -⟩
      exact absurd h (Nat.lt_irrefl 0)
  | levels + 1 => by
    have ih := readsValues_valueWithin hr levels
    refine ⟨fun r type hp => ?_, fun r b v r' hb => ?_⟩
    · have hitem := fun type => ih.plain r type hp
      unfold valueWithin
      cases type with
      | stop =>
        refine (Parses.throw _).congr fun v bs => ⟨fun h => h.elim, ?_⟩
        rintro ⟨ht, -⟩
        exact Value.type_ne_stop v ht
      | bool =>
        exact parses_leaf (parses_bool hp) (fun v => by cases v <;> simp [Value.type]) (fun _ => rfl) (fun _ => rfl)
          fun _ _ => Phrase.written_bool
      | byte =>
        exact parses_leaf parses_byte (fun v => by cases v <;> simp [Value.type]) (fun _ => rfl) (fun _ => rfl)
          fun _ _ => Phrase.written_byte
      | i16 =>
        exact parses_leaf parses_i16 (fun v => by cases v <;> simp [Value.type]) (fun _ => rfl) (fun _ => rfl)
          fun _ _ => Phrase.written_i16
      | i32 =>
        exact parses_leaf parses_i32 (fun v => by cases v <;> simp [Value.type]) (fun _ => rfl) (fun _ => rfl)
          fun _ _ => Phrase.written_i32
      | i64 =>
        exact parses_leaf parses_i64 (fun v => by cases v <;> simp [Value.type]) (fun _ => rfl) (fun _ => rfl)
          fun _ _ => Phrase.written_i64
      | double =>
        exact parses_leaf parses_double (fun v => by cases v <;> simp [Value.type]) (fun _ => rfl) (fun _ => rfl)
          fun _ _ => Phrase.written_double
      | binary =>
        exact parses_leaf parses_binaryBytes (fun v => by cases v <;> simp [Value.type]) (fun _ => rfl) (fun _ => rfl)
          fun _ _ => Phrase.written_binary
      | list =>
        exact parses_collection hitem (fun v => by cases v <;> simp [Value.type]) (fun _ _ => rfl) (fun _ _ => rfl)
          fun _ _ _ => Phrase.written_list
      | set =>
        exact parses_collection hitem (fun v => by cases v <;> simp [Value.type]) (fun _ _ => rfl) (fun _ _ => rfl)
          fun _ _ _ => Phrase.written_set
      | map => exact parses_mapOf hitem
      | struct =>
        refine ((parses_structOf ih hp hr).map Value.struct).congr fun v bs => ⟨?_, ?_⟩
        · rintro ⟨fs, rfl, hh, hs, hw⟩
          exact ⟨rfl, Nat.succ_le_succ hh, hs, .struct hw⟩
        · rintro ⟨ht, hh, hs, hw⟩
          cases hw with
          | struct hw => exact ⟨_, rfl, Nat.le_of_succ_le_succ hh, hs, hw⟩
          | _ => cases ht
    · have hbool : valueWithin rounds (levels + 1) .bool r = .ok (.bool b) { r with pendingBool := none } :=
        bind_of_ok (bool_of_pending hb)
      rw [hbool, EStateM.Result.ok.injEq]
      refine ⟨?_, ?_⟩
      · rintro ⟨rfl, rfl⟩
        exact ⟨Nat.succ_pos _, rfl, rfl⟩
      · rintro ⟨-, rfl, rfl⟩
        exact ⟨rfl, rfl⟩

/-- **Records**: the fields of a struct, which lie one level deep. -/
theorem record_eq_ok (hp : r.pendingBool = none) (fs : Record) (r' : Reader Bytes) :
    record r = .ok fs r' ↔ ∃ bs rest, r.input = bs ++ rest ∧ (Record.height fs ≤ r.limits.maxDepth ∧
      Record.structHeight fs ≤ r.limits.maxDepth - r.depth ∧ Phrase.Written (some r.limits) (.fields 0 fs) bs) ∧
      r' = { r with input := rest } :=
  parses_structOf (readsValues_valueWithin (Nat.lt_succ_self _) r.limits.maxDepth) hp (Nat.lt_succ_self _)
    r.input fs r' (Nat.le_refl _)

end Reader

/-- **Whole byte strings**: one is decoded to a record exactly if it is a way to write it that keeps to the limits. -/
theorem Record.decode_eq_ok {limits : Limits} {bytes : Bytes} {r : Record} : Record.decode limits bytes = .ok r ↔
    Phrase.Written (some limits) (.fields 0 r) bytes ∧ r.height ≤ limits.maxDepth ∧
      r.structHeight ≤ limits.maxDepth := by
  have hread := Reader.record_eq_ok (r := { input := bytes, limits }) rfl r
  unfold Record.decode
  refine ⟨fun h => ?_, fun ⟨hw, hh, hs⟩ => ?_⟩
  · cases hr : Reader.record { input := bytes, limits } with
    | error e r' =>
      rw [hr] at h
      cases h
    | ok fs r' =>
      rw [hr] at h
      dsimp only at h
      split at h <;> cases h
      rename_i hempty
      obtain ⟨bs, rest, hin, ⟨hh, hs, hw⟩, rfl⟩ := (hread r').1 hr
      rw [show rest = [] by simpa using hempty, List.append_nil] at hin
      rw [show bytes = bs from hin]
      exact ⟨hw, hh, hs⟩
  · rw [(hread _).2 ⟨bytes, [], (List.append_nil bytes).symm, ⟨hh, hs, hw⟩, rfl⟩]
    rfl

end CompactWire

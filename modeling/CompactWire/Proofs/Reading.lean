import CompactWire.Grammar
import CompactWire.Proofs.Varint
import CompactWire.Reader.Value

/-!
# CompactWire.Proofs.Reading — what a reader of a byte string reads

`Parses n r x P` says of a call `x` of a reader in the state `r`, over any input of at most `n` bytes: it succeeds
exactly where a form of its result stands in front, `P a bs` telling that `bs` is a form of `a`, and then it takes this
form and leaves the rest of the reader as it was.  There is a rule for each way to put calls together, and a lemma for
each call that leaves the reader as it was.  The bound `n` is there for the loop over the fields of a struct, which is
bounded by the bytes ahead.

The two calls around the fields, `structBegin` and `fieldBegin`, change the reader and have lemmas of their own.
-/

namespace CompactWire.Reader

open Outcome

variable {α β : Type} {n : Nat} {r : Reader Bytes}

/-- The call `x` reads the forms `P` and leaves the reader `r` as it is. -/
def Parses (n : Nat) (r : Reader Bytes) (x : Reading Bytes α) (P : α → Bytes → Prop) : Prop :=
  ∀ input a r', input.length ≤ n →
    (x { r with input } = .ok a r' ↔ ∃ bs rest, input = bs ++ rest ∧ P a bs ∧ r' = { r with input := rest })

namespace Parses

variable {x : Reading Bytes α} {f : α → Reading Bytes β} {P P' : α → Bytes → Prop} {Q : α → β → Bytes → Prop}

/-! ### Rules -/

theorem congr (h : Parses n r x P) (hp : ∀ a bs, P a bs ↔ P' a bs) : Parses n r x P' := by
  intro input a r' hn
  rw [h input a r' hn]
  simp only [hp]

theorem pure (a : α) : Parses n r (pure a) (fun b bs => b = a ∧ bs = []) := by
  intro input b r' _
  constructor
  · intro h
    cases h
    exact ⟨[], input, rfl, ⟨rfl, rfl⟩, rfl⟩
  · rintro ⟨bs, rest, rfl, ⟨rfl, rfl⟩, rfl⟩
    rfl

theorem throw (e : Error) : Parses (α := α) n r (throw e) (fun _ _ => False) := by
  intro input a r' _
  constructor
  · intro h
    cases h
  · rintro ⟨_, _, _, h, _⟩
    exact h.elim

theorem bind (hx : Parses n r x P) (hf : ∀ a bs, P a bs → Parses n r (f a) (Q a)) :
    Parses n r (x >>= f) (fun b bs => ∃ a bs₁ bs₂, bs = bs₁ ++ bs₂ ∧ P a bs₁ ∧ Q a b bs₂) := by
  intro input b r' hn
  rw [bind_eq_ok]
  constructor
  · rintro ⟨a, t, h1, h2⟩
    obtain ⟨bs₁, mid, rfl, hp, rfl⟩ := (hx input a t hn).1 h1
    have hm : mid.length ≤ n := by rw [List.length_append] at hn; omega
    obtain ⟨bs₂, rest, rfl, hq, rfl⟩ := (hf a bs₁ hp mid b r' hm).1 h2
    exact ⟨bs₁ ++ bs₂, rest, (List.append_assoc _ _ _).symm, ⟨a, bs₁, bs₂, rfl, hp, hq⟩, rfl⟩
  · rintro ⟨bs, rest, rfl, ⟨a, bs₁, bs₂, rfl, hp, hq⟩, rfl⟩
    have hm : (bs₂ ++ rest).length ≤ n := by simp only [List.length_append] at hn ⊢; omega
    exact ⟨a, { r with input := bs₂ ++ rest },
      (hx _ a _ hn).2 ⟨bs₁, bs₂ ++ rest, List.append_assoc _ _ _, hp, rfl⟩,
      (hf a bs₁ hp _ b _ hm).2 ⟨bs₂, rest, rfl, hq, rfl⟩⟩

theorem map (hx : Parses n r x P) (g : α → β) :
    Parses n r (do return g (← x)) (fun b bs => ∃ a, b = g a ∧ P a bs) := by
  refine (hx.bind fun a _ _ => Parses.pure (g a)).congr fun b bs => ?_
  constructor
  · rintro ⟨a, bs₁, bs₂, rfl, hp, rfl, rfl⟩
    exact ⟨a, rfl, by rwa [List.append_nil]⟩
  · rintro ⟨a, rfl, hp⟩
    exact ⟨a, bs, [], (List.append_nil bs).symm, hp, rfl, rfl⟩

/-- Looking at the reader does not read anything; what it is used for may not depend on the input. -/
theorem get {g : Reader Bytes → Reading Bytes β} {y : Reading Bytes β} {R : β → Bytes → Prop}
    (hg : ∀ input, g { r with input } = y) (hy : Parses n r y R) : Parses n r (get >>= g) R := by
  intro input b r' hn
  rw [← hy input b r' hn, ← hg input]
  exact Iff.rfl

theorem onInput {y : EStateM Error Bytes α}
    (h : ∀ input a rest, y input = .ok a rest ↔ ∃ bs, input = bs ++ rest ∧ P a bs) : Parses n r (onInput y) P := by
  intro input a r' _
  unfold Reader.onInput
  cases hy : y input with
  | ok b rest =>
    constructor
    · intro hr
      cases hr
      obtain ⟨bs, rfl, hp⟩ := (h _ _ _).1 hy
      exact ⟨bs, rest, rfl, hp, rfl⟩
    · rintro ⟨bs, rest, rfl, hp, rfl⟩
      rw [(h _ a rest).2 ⟨bs, rfl, hp⟩] at hy
      cases hy
      rfl
  | error e rest =>
    constructor
    · intro hr
      cases hr
    · rintro ⟨bs, rest, rfl, hp, rfl⟩
      rw [(h _ a rest).2 ⟨bs, rfl, hp⟩] at hy
      cases hy

end Parses

/-! ### Single values -/

theorem parses_readByte : Parses n r readByte (fun b bs => bs = [b]) :=
  Parses.onInput fun input b rest => by
    show Bytes.readByte input = .ok b rest ↔ _
    rw [Bytes.readByte_eq_ok]
    simp

theorem parses_varint {w : Varint.Width} (hw : w.top ≤ 7) : Parses n r (onInput (Varint.read w)) w.Admits :=
  Parses.onInput fun _ _ _ => Varint.read_eq_ok hw

theorem parses_withSpan (length : Nat) :
    Parses n r (onInput (Input.withSpan length)) (fun a bs => a = bs ∧ bs.length = length) :=
  Parses.onInput fun input a rest => by
    show (Bytes.readSpan length >>= fun s => _) input = .ok a rest ↔ _
    rw [bind_eq_ok]
    constructor
    · rintro ⟨s, t, hs, h⟩
      cases h
      obtain ⟨rfl, hl⟩ := Bytes.readSpan_eq_ok.1 hs
      exact ⟨_, rfl, rfl, hl⟩
    · rintro ⟨bs, rfl, rfl, hl⟩
      exact ⟨a, rest, Bytes.readSpan_eq_ok.2 ⟨rfl, hl⟩, rfl⟩

theorem parses_typeOf (code : Nat) : Parses n r (typeOf code) (fun t bs => WireType.HasCode t code ∧ bs = []) := by
  unfold typeOf WireType.HasCode
  cases h : WireType.ofCode? code with
  | none => exact (Parses.throw _).congr fun t bs => by simp
  | some u => exact (Parses.pure u).congr fun t bs => by simp [eq_comm]

/-- A checked number: the lengths and sizes that are numbers of their own. -/
theorem parses_checked (max : Reader Bytes → Nat) (hmax : ∀ input, max { r with input } = max r) :
    Parses n r (do
      let m ← onInput (Varint.read .w32)
      let r ← get
      if max r < m then throw (.lengthExceeded m (max r)) else return m)
      (fun m bs => Varint.Width.w32.Admits m bs ∧ m ≤ max r) := by
  have hcheck : ∀ m, Parses n r (do
      let r ← get
      if max r < m then throw (.lengthExceeded m (max r)) else return m) (fun a bs => a = m ∧ bs = [] ∧ m ≤ max r) := by
    intro m
    refine Parses.get (y := if max r < m then throw (.lengthExceeded m (max r)) else Pure.pure m)
      (fun input => by rw [hmax]) ?_
    by_cases h : max r < m
    · rw [if_pos h]
      refine (Parses.throw _).congr fun a bs => ?_
      simp
      omega
    · rw [if_neg h]
      refine (Parses.pure m).congr fun a bs => ?_
      simp
      omega
  refine ((parses_varint (by decide)).bind fun m _ _ => hcheck m).congr fun a bs => ?_
  constructor
  · rintro ⟨m, bs₁, bs₂, rfl, hm, rfl, rfl, hle⟩
    exact ⟨by rwa [List.append_nil], hle⟩
  · rintro ⟨hm, hle⟩
    exact ⟨a, bs, [], (List.append_nil bs).symm, hm, rfl, rfl, hle⟩

theorem parses_readLength :
    Parses n r readLength (fun m bs => Varint.Width.w32.Admits m bs ∧ Limits.AllowsLength r.limits m) :=
  (parses_checked (fun r => r.limits.maxString) fun _ => rfl).congr fun m bs => by simp [Limits.AllowsLength]

theorem parses_readSize :
    Parses n r readSize (fun m bs => Varint.Width.w32.Admits m bs ∧ Limits.AllowsSize r.limits m) :=
  (parses_checked (fun r => r.limits.maxContainer) fun _ => rfl).congr fun m bs => by simp [Limits.AllowsSize]

theorem parses_byte : Parses n r byte (fun m bs => bs = [m.toUInt8]) :=
  (parses_readByte.map UInt8.toInt8).congr fun m bs => by
    constructor
    · rintro ⟨b, rfl, rfl⟩
      simp
    · rintro rfl
      exact ⟨m.toUInt8, by simp, rfl⟩

theorem parses_readSigned {w : Varint.Width} (hw : w.top ≤ 7) :
    Parses n r (onInput (Varint.readSigned w)) (fun i bs => ∃ m, i = Varint.unzigzag m ∧ w.Admits m bs) :=
  Parses.onInput fun input i rest => by
    show (Varint.read w >>= fun m => pure (Varint.unzigzag m)) input = .ok i rest ↔ _
    rw [bind_eq_ok]
    constructor
    · rintro ⟨m, t, hm, h⟩
      cases h
      obtain ⟨bs, rfl, hw⟩ := (Varint.read_eq_ok hw).1 hm
      exact ⟨bs, rfl, m, rfl, hw⟩
    · rintro ⟨bs, rfl, m, rfl, hm⟩
      exact ⟨m, rest, (Varint.read_eq_ok hw).2 ⟨bs, rfl, hm⟩, rfl⟩

theorem parses_i32 :
    Parses n r i32 (fun i bs => ∃ m, i = Int32.ofInt (Varint.unzigzag m) ∧ Varint.Width.w32.Admits m bs) :=
  ((parses_readSigned (by decide)).map Int32.ofInt).congr fun i bs => by
    constructor
    · rintro ⟨_, rfl, m, rfl, hm⟩
      exact ⟨m, rfl, hm⟩
    · rintro ⟨m, rfl, hm⟩
      exact ⟨_, rfl, m, rfl, hm⟩

theorem parses_i16 :
    Parses n r i16 (fun i bs => ∃ m, i = Int16.ofInt (Varint.unzigzag m) ∧ Varint.Width.w32.Admits m bs) :=
  (parses_i32.map Int32.toInt16).congr fun i bs => by
    constructor
    · rintro ⟨_, rfl, m, rfl, hm⟩
      exact ⟨m, Int32.toInt16_ofInt, hm⟩
    · rintro ⟨m, rfl, hm⟩
      exact ⟨_, Int32.toInt16_ofInt.symm, m, rfl, hm⟩

theorem parses_i64 :
    Parses n r i64 (fun i bs => ∃ m, i = Int64.ofInt (Varint.unzigzag m) ∧ Varint.Width.w64.Admits m bs) :=
  ((parses_readSigned (by decide)).map Int64.ofInt).congr fun i bs => by
    constructor
    · rintro ⟨_, rfl, m, rfl, hm⟩
      exact ⟨m, rfl, hm⟩
    · rintro ⟨m, rfl, hm⟩
      exact ⟨_, rfl, m, rfl, hm⟩

theorem parses_double : Parses n r double (fun bits bs => bs = Bytes.littleEndian 8 bits.toNat) := by
  have hlength : ∀ a bs : Bytes, a = bs ∧ bs.length = 8 →
      Parses n r (if a.length ≠ 8 then (do throw (.assembledLength 8 a.length); return UInt64.ofNat a.ofLittleEndian)
        else return UInt64.ofNat a.ofLittleEndian) (fun bits bs => bits = UInt64.ofNat a.ofLittleEndian ∧ bs = []) := by
    rintro a bs ⟨rfl, h⟩
    rw [if_neg (by simpa using h)]
    exact Parses.pure _
  refine ((parses_withSpan 8).bind hlength).congr fun bits bs => ?_
  constructor
  · rintro ⟨a, _, _, rfl, ⟨rfl, hl⟩, rfl, rfl⟩
    have hlt := Bytes.ofLittleEndian_lt a
    rw [hl] at hlt
    rw [List.append_nil, UInt64.toNat_ofNat_of_lt' (by simpa using hlt), ← hl, Bytes.littleEndian_ofLittleEndian]
  · rintro rfl
    refine ⟨_, _, [], (List.append_nil _).symm, ⟨rfl, Bytes.length_littleEndian _ _⟩, ?_, rfl⟩
    have hlt : bits.toNat < 1 <<< (8 * 8) := bits.toNat_lt
    rw [Bytes.ofLittleEndian_littleEndian, Nat.mod_eq_of_lt hlt, UInt64.ofNat_toNat]

theorem parses_binaryBytes :
    Parses n r binaryBytes (fun a bs => ∃ head, bs = head ++ a ∧ Varint.Width.w32.Admits a.length head ∧
      Limits.AllowsLength r.limits a.length) := by
  refine (parses_readLength.bind fun length _ _ => parses_withSpan length).congr fun a bs => ?_
  constructor
  · rintro ⟨_, head, _, rfl, ⟨hm, hle⟩, rfl, rfl⟩
    exact ⟨head, rfl, hm, hle⟩
  · rintro ⟨head, rfl, hm, hle⟩
    exact ⟨a.length, head, a, rfl, ⟨hm, hle⟩, rfl, rfl⟩

/-! ### Headers -/

/-- A byte whose low half, or high half, is a code. -/
theorem nibbles_of_halves {b : UInt8} {high low : Nat} (hh : b.toNat / 16 = high) (hl : b.toNat % 16 = low) :
    b = nibbles high low := by
  rw [← hh, ← hl, nibbles_halves]

theorem halves_nibbles {high low : Nat} (hh : high < 16) (hl : low < 16) :
    (nibbles high low).toNat / 16 = high ∧ (nibbles high low).toNat % 16 = low := by
  rw [toNat_nibbles hh hl]
  omega

theorem parses_collectionSize (packed : Nat) : Parses n r (collectionSize packed) (fun size bs =>
    if packed = 15 then Varint.Width.w32.Admits size bs ∧ Limits.AllowsSize r.limits size
    else size = packed ∧ bs = []) := by
  unfold collectionSize
  split
  · exact parses_readSize
  · exact Parses.pure packed

theorem parses_collectionBegin :
    Parses n r collectionBegin (fun h bs => CollectionHeader.Written (some r.limits) h bs) := by
  refine (parses_readByte.bind fun b _ _ => (parses_typeOf (b.toNat % 16)).bind fun element _ _ =>
    (parses_collectionSize (b.toNat / 16)).map (CollectionHeader.mk element)).congr fun h bs => ?_
  constructor
  · rintro ⟨b, _, _, rfl, rfl, element, _, tail, rfl, ⟨hc, rfl⟩, size, rfl, hs⟩
    split at hs
    · rename_i h15
      rw [nibbles_of_halves h15 rfl]
      exact .long hc hs.1 hs.2
    · rename_i h15
      obtain ⟨rfl, rfl⟩ := hs
      have hlt := b.toNat_lt
      have hb : [b] = [nibbles (b.toNat / 16) (b.toNat % 16)] := by rw [nibbles_halves]
      rw [List.append_nil, List.append_nil, hb]
      exact .short (h := ⟨element, b.toNat / 16⟩) hc (by show b.toNat / 16 ≤ 14; omega)
  · intro hw
    cases hw with
    | @short code hc hs =>
      have hcode := WireType.lt_of_ofCode? hc
      obtain ⟨h1, h2⟩ := halves_nibbles (show h.size < 16 by omega) hcode
      refine ⟨_, _, [], rfl, rfl, h.element, [], [], rfl, ⟨by rwa [h2], rfl⟩, h.size, rfl, ?_⟩
      rw [h1, if_neg (by omega)]
      exact ⟨rfl, rfl⟩
    | @long code tail hc hs hle =>
      have hcode := WireType.lt_of_ofCode? hc
      obtain ⟨h1, h2⟩ := halves_nibbles (show 15 < 16 by omega) hcode
      refine ⟨_, _, tail, rfl, rfl, h.element, [], tail, rfl, ⟨by rwa [h2], rfl⟩, h.size, rfl, ?_⟩
      rw [h1, if_pos rfl]
      exact ⟨hs, hle⟩

/-- The forms of a map header: a zero, or a size, which is not zero, and a byte with both types. -/
inductive MapWritten (limits : Limits) : MapHeader → Bytes → Prop
  | empty {bs : Bytes} (size : Varint.Width.w32.Admits 0 bs) : MapWritten limits ⟨none, none, 0⟩ bs
  | full {key val : WireType} {size keyCode valCode : Nat} {head : Bytes} (nonzero : size ≠ 0)
    (written : Varint.Width.w32.Admits size head) (allowed : Limits.AllowsSize limits size)
    (keyType : key.HasCode keyCode) (valType : val.HasCode valCode) :
    MapWritten limits ⟨some key, some val, size⟩ (head ++ [nibbles keyCode valCode])

theorem parses_mapBegin : Parses n r mapBegin (fun h bs => MapWritten r.limits h bs) := by
  have hrest : ∀ size, Parses n r
      (if size = 0 then return MapHeader.mk none none 0 else (do
        let b ← readByte
        let key ← typeOf (b.toNat / 16)
        let val ← typeOf (b.toNat % 16)
        return MapHeader.mk (some key) (some val) size))
      (fun h bs => h.size = size ∧ ((size = 0 ∧ h = ⟨none, none, 0⟩ ∧ bs = []) ∨ ∃ b key val, size ≠ 0 ∧
        WireType.HasCode key (b.toNat / 16) ∧ WireType.HasCode val (b.toNat % 16) ∧ h = ⟨some key, some val, size⟩ ∧
        bs = [b])) := by
    intro size
    split
    · rename_i h0
      refine (Parses.pure _).congr fun h bs => ?_
      constructor
      · rintro ⟨rfl, rfl⟩
        exact ⟨h0.symm, Or.inl ⟨h0, rfl, rfl⟩⟩
      · rintro ⟨-, ⟨-, rfl, rfl⟩ | ⟨_, _, _, hne, _⟩⟩
        · exact ⟨rfl, rfl⟩
        · exact absurd h0 hne
    · rename_i h0
      refine (parses_readByte.bind fun b _ _ => (parses_typeOf (b.toNat / 16)).bind fun key _ _ =>
        (parses_typeOf (b.toNat % 16)).map fun val => MapHeader.mk (some key) (some val) size).congr fun h bs => ?_
      constructor
      · rintro ⟨b, _, _, rfl, rfl, key, _, _, rfl, ⟨hk, rfl⟩, val, rfl, hv, rfl⟩
        exact ⟨rfl, Or.inr ⟨b, key, val, h0, hk, hv, rfl, rfl⟩⟩
      · rintro ⟨-, ⟨h, _⟩ | ⟨b, key, val, -, hk, hv, rfl, rfl⟩⟩
        · exact absurd h h0
        · exact ⟨b, [b], [], rfl, rfl, key, [], [], rfl, ⟨hk, rfl⟩, val, rfl, hv, rfl⟩
  refine (parses_readSize.bind fun size _ _ => hrest size).congr fun h bs => ?_
  constructor
  · rintro ⟨size, head, _, rfl, ⟨hs, hle⟩, -, ⟨rfl, rfl, rfl⟩ | ⟨b, key, val, hne, hk, hv, rfl, rfl⟩⟩
    · rw [List.append_nil]
      exact .empty hs
    · rw [nibbles_of_halves (b := b) rfl rfl]
      exact .full hne hs hle hk hv
  · intro hw
    cases hw with
    | empty hs =>
      have hallowed : Limits.AllowsSize (some r.limits) 0 := by simp [Limits.AllowsSize]
      exact ⟨0, bs, [], (List.append_nil bs).symm, ⟨hs, hallowed⟩, rfl, Or.inl ⟨rfl, rfl, rfl⟩⟩
    | @full key val size keyCode valCode head hne hs hle hk hv =>
      obtain ⟨h1, h2⟩ := halves_nibbles (WireType.lt_of_ofCode? hk) (WireType.lt_of_ofCode? hv)
      exact ⟨size, head, _, rfl, ⟨hs, hle⟩, rfl, Or.inr ⟨_, key, val, hne, by rwa [h1], by rwa [h2], rfl, rfl⟩⟩

end CompactWire.Reader

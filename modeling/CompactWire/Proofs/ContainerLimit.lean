import Mathlib
import CompactWire.Proofs.Gives
import CompactWire.Proofs.ReadGrammar
import CompactWire.Proofs.Skipping

/-!
# CompactWire.Proofs.ContainerLimit — what the limit on containers binds

A size that is a number of its own is checked against the limit on containers: that of every map, and that of a list or
set behind a first byte that says it follows.  A size that shares a byte with the type of the elements is not checked,
so lists and sets of up to 14 elements pass any limit.

`Limits.Binds n limits` says that lists and sets are bound by `n` and maps by the limit, in headers and in all that is
read.  It holds with the limit or 14, whatever is greater, and with the limit itself from 14 on (`binds_iff`).
-/

namespace CompactWire

open Outcome

/-! ### Values -/

/-- No part of the value has more elements than that. -/
def Value.Bounded (n : Nat) (limits : Limits) (v : Value) : Prop := ∀ p ∈ v.parts, p.elementCount ≤ limits.most n p.type

/-- No part of the record has more elements than that. -/
def Record.Bounded (n : Nat) (limits : Limits) (s : Record) : Prop :=
  ∀ p ∈ s.parts, p.elementCount ≤ limits.most n p.type

namespace Reader

variable {ι span : Type} [Input ι span]

/-- The number of elements that a part may have. -/
def CountFits (l : Limits) (p : Value) : Prop := p.elementCount ≤ l.most (max 14 l.maxContainer) p.type

theorem gives_counted_binary : Gives (ι := ι) (fun l bytes => CountFits l (.binary bytes)) binaryBytes :=
  keepsLimits_binaryBytes.mono fun _ _ _ => Nat.zero_le _

theorem gives_bounded_value (type : WireType) :
    Gives (ι := ι) (fun l v => v.Bounded (max 14 l.maxContainer) l) (value type) :=
  gives_value (fun _ _ _ h => h) gives_counted_binary type

theorem gives_bounded_record : Gives (ι := ι) (fun l s => s.Bounded (max 14 l.maxContainer) l) record :=
  gives_record (fun _ _ _ h => h) gives_counted_binary

end Reader

/-! ### Headers of too many elements -/

namespace Reader

variable {r : Reader Bytes} {size : Nat} {form : Bytes}

theorem readSize_of_lt (h : Varint.Width.w32.Admits size form) (hlt : r.limits.maxContainer < size) (rest : Bytes) :
    readSize { r with input := form ++ rest } =
      .error (.lengthExceeded size r.limits.maxContainer) { r with input := rest } := by
  have hread : onInput (Varint.read .w32) { r with input := form ++ rest } = .ok size { r with input := rest } :=
    (parses_varint (by decide) (form ++ rest) size _ (Nat.le_refl _)).2 ⟨form, rest, rfl, h, rfl⟩
  refine (bind_of_ok hread).trans ((bind_of_ok (x := get) rfl).trans ?_)
  dsimp only
  rw [if_pos hlt]
  rfl

theorem mapBegin_of_lt (h : Varint.Width.w32.Admits size form) (hlt : r.limits.maxContainer < size) (rest : Bytes) :
    mapBegin { r with input := form ++ rest } =
      .error (.lengthExceeded size r.limits.maxContainer) { r with input := rest } :=
  bind_of_error (readSize_of_lt h hlt rest)

/-- The size of a list or set is checked where it follows the first byte. -/
theorem collectionBegin_of_lt {header : CollectionHeader} (h : header.Written none form)
    (hlt : max 14 r.limits.maxContainer < header.size) (rest : Bytes) :
    collectionBegin { r with input := form ++ rest } =
      .error (.lengthExceeded header.size r.limits.maxContainer) { r with input := rest } := by
  rw [Nat.max_lt] at hlt
  cases h with
  | short _ hshort => exact absurd hshort (Nat.not_le.2 hlt.1)
  | @long code bs htype hsize =>
    obtain ⟨hhigh, hlow⟩ := halves_nibbles (show 15 < 16 by omega) (WireType.lt_of_ofCode? htype)
    have hbyte : readByte { r with input := nibbles 15 code :: bs ++ rest } =
        .ok (nibbles 15 code) { r with input := bs ++ rest } := rfl
    have helement : typeOf code { r with input := bs ++ rest } = .ok header.element { r with input := bs ++ rest } :=
      (parses_typeOf code (bs ++ rest) _ _ (Nat.le_refl _)).2 ⟨[], _, rfl, ⟨htype, rfl⟩, rfl⟩
    refine (bind_of_ok hbyte).trans ?_
    rw [hhigh, hlow]
    exact (bind_of_ok helement).trans (bind_of_error (readSize_of_lt hsize hlt.2 rest))

end Reader

/-! ### What the limit binds -/

/-- Readers with the given limits accept lists and sets of up to `n` elements, and maps up to the limit. -/
structure Limits.Binds (n : Nat) (limits : Limits) : Prop where
  /-- A list or set of more is refused, whatever form its header has. -/
  collection {r : Reader Bytes} {header : CollectionHeader} {form : Bytes} (rest : Bytes) : r.limits = limits →
    header.Written none form → n < header.size →
    Reader.collectionBegin { r with input := form ++ rest } =
      .error (.lengthExceeded header.size limits.maxContainer) { r with input := rest }
  /-- A larger map is refused. -/
  map {r : Reader Bytes} {size : Nat} {form : Bytes} (rest : Bytes) : r.limits = limits →
    Varint.Width.w32.Admits size form → limits.maxContainer < size →
    Reader.mapBegin { r with input := form ++ rest } =
      .error (.lengthExceeded size limits.maxContainer) { r with input := rest }
  collection_le {r r' : Reader Bytes} {header : CollectionHeader} : r.limits = limits →
    Reader.collectionBegin r = .ok header r' → header.size ≤ n
  map_le {r r' : Reader Bytes} {header : MapHeader} : r.limits = limits →
    Reader.mapBegin r = .ok header r' → header.size ≤ limits.maxContainer
  value {r r' : Reader Bytes} {type : WireType} {v : Value} : r.limits = limits →
    Reader.value type r = .ok v r' → v.Bounded n limits
  /-- What is passed over is bound as what is read. -/
  skip {r r' : Reader Bytes} {type : WireType} : r.limits = limits → Reader.skip type r = .ok () r' →
    ∃ v, Reader.value type r = .ok v r' ∧ v.Bounded n limits
  record {r r' : Reader Bytes} {s : Record} : r.limits = limits → Reader.record r = .ok s r' → s.Bounded n limits
  decode {bytes : Bytes} {s : Record} : Record.decode limits bytes = .ok s → s.Bounded n limits

namespace Limits

variable {limits : Limits}

theorem binds_max (limits : Limits) : limits.Binds (max 14 limits.maxContainer) where
  collection := by
    rintro r header form rest rfl h hlt
    exact Reader.collectionBegin_of_lt h hlt rest
  map := by
    rintro r size form rest rfl h hlt
    exact Reader.mapBegin_of_lt h hlt rest
  collection_le := by
    rintro r r' header rfl h
    exact (Reader.gives_collectionBegin r header r' h).2
  map_le := by
    rintro r r' header rfl h
    exact (Reader.gives_mapBegin r header r' h).2
  value := by
    rintro r r' type v rfl h
    exact (Reader.gives_bounded_value type r v r' h).2
  skip := by
    rintro r r' type rfl h
    rw [Reader.skip_eq Bytes.exact] at h
    obtain ⟨v, hv⟩ := Reader.discard_eq_ok_iff.1 h
    exact ⟨v, hv, (Reader.gives_bounded_value type r v r' hv).2⟩
  record := by
    rintro r r' s rfl h
    exact (Reader.gives_bounded_record r s r' h).2
  decode := by
    intro bytes s h
    unfold Record.decode at h
    cases hread : Reader.record { input := bytes, limits } with
    | error e r' =>
      rw [hread] at h
      cases h
    | ok s' r' =>
      rw [hread] at h
      dsimp only at h
      split at h <;> cases h
      exact (Reader.gives_bounded_record _ s r' hread).2

/-- A size of 14 is packed, and accepted with any limits. -/
theorem Binds.le {n : Nat} (h : limits.Binds n) : 14 ≤ n := by
  have hbegin : Reader.collectionBegin { input := [nibbles 14 1], limits } =
      .ok ⟨.bool, 14⟩ ({ input := [], limits } : Reader Bytes) := rfl
  exact h.collection_le rfl hbegin

/-- **What the limit on containers binds**: maps, and lists and sets of more than 14 elements, in every header and in
all that is read or passed over.  All lists and sets are bound by it just if it is at least 14. -/
theorem binds_iff (limits : Limits) : limits.Binds (max 14 limits.maxContainer) ∧
    (limits.Binds limits.maxContainer ↔ 14 ≤ limits.maxContainer) := by
  refine ⟨binds_max limits, Binds.le, fun h => ?_⟩
  have hbinds := binds_max limits
  rwa [Nat.max_eq_right h] at hbinds

/-- A list of two elements is read where no more than one is allowed. -/
theorem not_binds_one : Record.decode { maxContainer := 1 } [25, 35, 1, 2, 0] =
      .ok [(1, .list .byte [.byte 1, .byte 2])] ∧ ¬Binds 1 { maxContainer := 1 } := by
  have hread : Record.decode { maxContainer := 1 } [25, 35, 1, 2, 0] =
      .ok [(1, .list .byte [.byte 1, .byte 2])] := by cbv
  refine ⟨hread, fun h => ?_⟩
  have hcount := h.decode hread (.list .byte [.byte 1, .byte 2]) List.mem_cons_self
  exact absurd hcount (by decide)

end Limits

end CompactWire

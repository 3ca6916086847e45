import Mathlib
import CompactWire.Proofs.ReadGrammar

/-!
# CompactWire.Proofs.Unlimited — without limits in the way, decoding accepts the grammar of the wire

A byte string bounds what it can stand for: every value takes a byte at least, so lists, sets and maps have no more
elements than bytes (`Written.count_le`), and every struct or container around a value takes another one, so nothing
lies deeper than that (`Written.height_le`).  Limits that are not below the length of a byte string are therefore kept
by all that it stands for (`Limits.Beyond`), and its decoding is a matter of the grammar alone.
-/

namespace CompactWire

theorem CollectionHeader.Written.length_pos {limits : Option Limits} {h : CollectionHeader} {bs : Bytes}
    (hw : h.Written limits bs) : 0 < bs.length := by
  cases hw with
  | short => exact Nat.zero_lt_one
  | long => exact Nat.succ_pos _

/-- `limits'` allow what `limits` allow, as far as numbers up to `n` go. -/
structure Limits.Loosens (n : Nat) (limits limits' : Option Limits) : Prop where
  length {m : Nat} : m ≤ n → m < UInt32.size → AllowsLength limits m → AllowsLength limits' m
  size {m : Nat} : m ≤ n → m < UInt32.size → AllowsSize limits m → AllowsSize limits' m

theorem CollectionHeader.Written.loosen {n : Nat} {limits limits' : Option Limits}
    (hl : Limits.Loosens n limits limits') {h : CollectionHeader} {bs : Bytes} (hn : h.size ≤ n)
    (hw : h.Written limits bs) : h.Written limits' bs := by
  cases hw with
  | short type size => exact .short type size
  | long type size allowed => exact .long type size (hl.size hn size.2.2 allowed)

theorem Value.structHeight_le_height (v : Value) : v.structHeight ≤ v.height := by
  induction v with
  | bool | byte | i16 | i32 | i64 | double | binary => exact Nat.zero_le _
  | list element items ih | set element items ih =>
    have h := itemHeight_le.1 (Nat.le_refl (itemHeight items))
    have hs : itemStructHeight items ≤ itemHeight items :=
      itemStructHeight_le.2 fun v hv => Nat.le_trans (ih v hv) (h v hv)
    simp only [structHeight, height]
    omega
  | map key value entries ih =>
    have h := entryHeight_le.1 (Nat.le_refl (entryHeight entries))
    have hs : entryStructHeight entries ≤ entryHeight entries :=
      entryStructHeight_le.2 fun e he =>
        ⟨Nat.le_trans (ih e he).1 (h e he).1, Nat.le_trans (ih e he).2 (h e he).2⟩
    simp only [structHeight, height]
    omega
  | struct fields ih =>
    have h := fieldHeight_le.1 (Nat.le_refl (fieldHeight fields))
    have hs : fieldStructHeight fields ≤ fieldHeight fields :=
      fieldStructHeight_le.2 fun f hf => Nat.le_trans (ih f hf) (h f hf)
    simp only [structHeight, height]
    omega

namespace Phrase

variable {limits limits' : Option Limits} {p : Phrase} {bs : Bytes}

/-! ### What a byte string can stand for -/

/-- The number of values that stand one after the other, or of fields with their end. -/
def count : Phrase → Nat
  | value _ => 1
  | items vs => vs.length
  | entries es => es.length
  | fields _ r => r.length + 1

theorem Written.count_le (h : Written limits p bs) : p.count ≤ bs.length := by
  induction h with
  | bool | byte => exact Nat.le_refl 1
  | i16 hn | i32 hn | i64 hn => exact hn.1.length_pos
  | double bits => simp [count]
  | binary hn =>
    have := hn.1.length_pos
    simp only [count, List.length_append]
    omega
  | list hh | set hh =>
    have := hh.length_pos
    simp only [count, List.length_append]
    omega
  | emptyMap hn => exact hn.1.length_pos
  | map _ hn =>
    have := hn.1.length_pos
    simp only [count, List.length_append]
    omega
  | struct _ ih =>
    simp only [count] at ih ⊢
    omega
  | noItems | noEntries | stop => simp [count]
  | item _ _ ih₁ ih₂ =>
    simp only [count, List.length_append, List.length_cons] at *
    omega
  | entry _ _ _ ih₁ ih₂ ih₃ =>
    simp only [count, List.length_append, List.length_cons] at *
    omega
  | boolField hh _ ih =>
    have := hh.length_pos
    simp only [count, List.length_append, List.length_cons] at *
    omega
  | field _ hh _ _ ih₁ ih₂ =>
    have := hh.length_pos
    simp only [count, List.length_append, List.length_cons] at *
    omega

/-- The height of the highest value, where the struct around fields counts. -/
def height : Phrase → Nat
  | value v => v.height
  | items vs => Value.itemHeight vs
  | entries es => Value.entryHeight es
  | fields _ r => Value.fieldHeight r + 1

theorem Written.height_le (h : Written limits p bs) : p.height ≤ bs.length := by
  induction h with
  | bool | byte => exact Nat.le_refl 1
  | i16 hn | i32 hn | i64 hn => exact hn.1.length_pos
  | double bits => simp [height, Value.height]
  | binary hn =>
    have := hn.1.length_pos
    simp only [height, Value.height, List.length_append]
    omega
  | list hh _ _ ih | set hh _ _ ih =>
    have := hh.length_pos
    simp only [height, Value.height, List.length_append] at *
    omega
  | emptyMap hn => exact hn.1.length_pos
  | map _ _ _ _ _ _ _ ih =>
    simp only [height, Value.height, List.length_append, List.length_cons] at *
    omega
  | struct _ ih => exact ih
  | noItems | noEntries | stop => simp [height, Value.itemHeight, Value.entryHeight, Value.fieldHeight]
  | item _ _ ih₁ ih₂ =>
    simp only [height, Value.itemHeight, List.length_append] at *
    omega
  | entry _ _ _ ih₁ ih₂ ih₃ =>
    simp only [height, Value.entryHeight, List.length_append] at *
    omega
  | boolField hh _ ih =>
    have := hh.length_pos
    simp only [height, Value.fieldHeight, Value.height, List.length_append] at *
    omega
  | field _ hh _ _ ih₁ ih₂ =>
    have := hh.length_pos
    simp only [height, Value.fieldHeight, List.length_append] at *
    omega

/-! ### Other limits -/

theorem Written.loosen {n : Nat} (hl : Limits.Loosens n limits limits') (h : Written limits p bs) (hn : bs.length ≤ n) :
    Written limits' p bs := by
  induction h with
  | bool b => exact .bool b
  | byte m => exact .byte m
  | i16 hm => exact .i16 hm
  | i32 hm => exact .i32 hm
  | i64 hm => exact .i64 hm
  | double bits => exact .double bits
  | binary hm allowed =>
    rw [List.length_append] at hn
    exact .binary hm (hl.length (by omega) hm.2.2 allowed)
  | @list element vs head bs hh types hw ih =>
    have hcount : vs.length ≤ bs.length := hw.count_le
    rw [List.length_append] at hn
    have hsize : vs.length ≤ n := by omega
    exact .list (hh.loosen hl hsize) types (ih (by omega))
  | @set element vs head bs hh types hw ih =>
    have hcount : vs.length ≤ bs.length := hw.count_le
    rw [List.length_append] at hn
    have hsize : vs.length ≤ n := by omega
    exact .set (hh.loosen hl hsize) types (ih (by omega))
  | emptyMap hm => exact .emptyMap hm
  | @map key val es keyCode valCode head bs nonempty hm allowed keyType valType types hw ih =>
    have hcount : es.length ≤ bs.length := hw.count_le
    rw [List.length_append, List.length_cons] at hn
    have hsize : es.length ≤ n := by omega
    exact .map nonempty hm (hl.size hsize hm.2.2 allowed) keyType valType types (ih (by omega))
  | struct _ ih => exact .struct (ih hn)
  | noItems => exact .noItems
  | item _ _ ih₁ ih₂ =>
    rw [List.length_append] at hn
    exact .item (ih₁ (by omega)) (ih₂ (by omega))
  | noEntries => exact .noEntries
  | entry _ _ _ ih₁ ih₂ ih₃ =>
    rw [List.length_append, List.length_append] at hn
    exact .entry (ih₁ (by omega)) (ih₂ (by omega)) (ih₃ (by omega))
  | stop => exact .stop
  | boolField hh _ ih =>
    rw [List.length_append] at hn
    exact .boolField hh (ih (by omega))
  | field notBool hh _ _ ih₁ ih₂ =>
    rw [List.length_append, List.length_append] at hn
    exact .field notBool hh (ih₁ (by omega)) (ih₂ (by omega))

end Phrase

/-! ### Limits out of reach -/

/-- Limits that no byte string of the given length can hit: a length or size in it is a number of 32 bits, and to be
kept it needs as many bytes. -/
structure Limits.Beyond (limits : Limits) (length : Nat) : Prop where
  maxString : length ≤ limits.maxString ∨ UInt32.size - 1 ≤ limits.maxString
  maxContainer : length ≤ limits.maxContainer ∨ UInt32.size - 1 ≤ limits.maxContainer
  maxDepth : length ≤ limits.maxDepth

theorem Limits.Beyond.loosens {limits : Limits} {n : Nat} (h : limits.Beyond n) : Loosens n none (some limits) where
  length := by
    intro m hm hsize _
    have := h.maxString
    rw [allowsLength_some]
    omega
  size := by
    intro m hm hsize _
    have := h.maxContainer
    rw [allowsSize_some]
    omega

theorem Limits.loosens_none (n : Nat) (limits : Option Limits) : Loosens n limits none where
  length := by
    intro m _ _ _ l hl
    cases hl
  size := by
    intro m _ _ _ l hl
    cases hl

/-- **Decoding accepts exactly the grammar of the wire**: where no limit can be hit, a byte string decodes to a record
if and only if the grammar writes the record that way. -/
theorem Record.decode_iff_written {limits : Limits} {bytes : Bytes} (h : limits.Beyond bytes.length) (r : Record) :
    Record.decode limits bytes = .ok r ↔ Phrase.Written none (.fields 0 r) bytes := by
  rw [decode_eq_ok]
  constructor
  · rintro ⟨hw, -, -⟩
    exact hw.loosen (Limits.loosens_none bytes.length (some limits)) (Nat.le_refl _)
  · intro hw
    have hdepth := h.maxDepth
    have hheight : r.height + 1 ≤ bytes.length := hw.height_le
    have hstructs : r.structHeight ≤ r.height + 1 := by
      have hle := Value.structHeight_le_height (.struct r)
      exact hle
    exact ⟨hw.loosen h.loosens (Nat.le_refl _), by omega, by omega⟩

/-- A list of one boolean, whose size is written in full and longer than it needs to be. -/
theorem Record.decode_iff_written_long : Limits.Beyond {} [25, 242, 129, 0, 7, 0].length ∧
    Record.decode {} [25, 242, 129, 0, 7, 0] = .ok [(1, .list .bool [.bool false])] ∧
    Phrase.Written none (.fields 0 [(1, .list .bool [.bool false])]) [25, 242, 129, 0, 7, 0] := by
  have hbeyond : Limits.Beyond {} [25, 242, 129, 0, 7, 0].length :=
    ⟨Or.inl (by decide), Or.inl (by decide), by decide⟩
  have hdecode : Record.decode {} [25, 242, 129, 0, 7, 0] = .ok [(1, .list .bool [.bool false])] := by cbv
  exact ⟨hbeyond, hdecode, (decode_iff_written hbeyond _).1 hdecode⟩

end CompactWire

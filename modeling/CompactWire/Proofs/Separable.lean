import CompactWire.Message
import CompactWire.Proofs.ReadGrammar

/-!
# CompactWire.Proofs.Separable — readings that take bytes of their own

A reading that takes exactly certain forms (`Reader.Parses`) takes its bytes from the front and does not look at the
others: it succeeds on an input just if it succeeds on some front part of it alone, with nothing left
(`Separable.eq_ok_iff`).  Which forms these are need not be said for this, so the rules here are simpler than those of
`Reader.Parses`, and message headers get by without a grammar.
-/

namespace CompactWire.Reader

open Outcome

variable {α β : Type} {r : Reader Bytes}

/-- There are forms which the call `x` reads, from the reader `r` with any input, and it leaves `r` as it is. -/
def Separable (r : Reader Bytes) (x : Reading Bytes α) : Prop := ∃ P, ∀ n, Parses n r x P

namespace Separable

variable {x y : Reading Bytes α} {f : α → Reading Bytes β}

theorem of_parses {P : α → Bytes → Prop} (h : ∀ n, Parses n r x P) : Separable r x := ⟨P, h⟩

theorem pure (a : α) : Separable r (pure a) := of_parses fun _ => Parses.pure a

theorem throw (e : Error) : Separable (α := α) r (throw e) := of_parses fun _ => Parses.throw e

theorem bind (hx : Separable r x) (hf : ∀ a, Separable r (f a)) : Separable r (x >>= f) := by
  obtain ⟨P, hP⟩ := hx
  exact of_parses fun n => (hP n).bind fun a _ _ => (hf a).choose_spec n

theorem ite {c : Prop} [Decidable c] (hx : Separable r x) (hy : Separable r y) : Separable r (if c then x else y) := by
  split
  · exact hx
  · exact hy

/-- A reading succeeds on a front part alone, and leaves what follows it. -/
theorem eq_ok_iff (h : Separable r x) {d : Bytes} {a : α} {r' : Reader Bytes} :
    x { r with input := d } = .ok a r' ↔ ∃ bs rest, d = bs ++ rest ∧
      x { r with input := bs } = .ok a { r with input := [] } ∧ r' = { r with input := rest } := by
  obtain ⟨P, hP⟩ := h
  have halone : ∀ bs, x { r with input := bs } = .ok a { r with input := [] } ↔ P a bs := by
    intro bs
    rw [hP bs.length bs a _ (Nat.le_refl _)]
    constructor
    · rintro ⟨bs', rest, rfl, hp, hleft⟩
      have hrest : [] = rest := congrArg input hleft
      rwa [← hrest, List.append_nil]
    · exact fun hp => ⟨bs, [], (List.append_nil bs).symm, hp, rfl⟩
  rw [hP d.length d a r' (Nat.le_refl _)]
  simp only [halone]

end Separable

/-! ### Readings -/

theorem separable_readByte : Separable r readByte := .of_parses fun _ => parses_readByte

theorem separable_varint : Separable r (onInput (Varint.read .w32)) := .of_parses fun _ => parses_varint (by decide)

theorem separable_string : Separable r string := by
  have hlength : Separable r readLength := .of_parses fun _ => parses_readLength
  refine hlength.bind fun length => .ite (.pure "") ?_
  refine Separable.bind (.of_parses fun _ => parses_withSpan length) fun bytes => ?_
  cases Utf8.decode bytes with
  | ok text => exact .pure text
  | error fault => exact .throw _

theorem separable_messageBegin : Separable r messageBegin := by
  refine separable_readByte.bind fun protocol => .ite (.throw _) ?_
  refine separable_readByte.bind fun b => .ite (.throw _) ?_
  exact separable_varint.bind fun seqId => separable_string.bind fun name => .pure _

theorem separable_record (hp : r.pendingBool = none) : Separable r record := by
  let P (fs : Record) (bs : Bytes) : Prop := fs.height ≤ r.limits.maxDepth ∧
    fs.structHeight ≤ r.limits.maxDepth - r.depth ∧ Phrase.Written (some r.limits) (.fields 0 fs) bs
  exact ⟨P, fun _ input fs r' _ => record_eq_ok (r := { r with input }) hp fs r'⟩

theorem separable_message (hp : r.pendingBool = none) : Separable r Message.read :=
  separable_messageBegin.bind fun header => (separable_record hp).bind fun record => .pure (header, record)

end CompactWire.Reader

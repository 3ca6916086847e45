import Mathlib
import CompactWire.Proofs.AgreementValues
import CompactWire.Record

/-!
# CompactWire.Proofs.LooserLimits — limits cut off and change nothing else

The limits are looked at in three places: a length, a size, and the levels that are left.  A run with tighter limits
goes side by side with one with looser limits until it gives up in one of them (`Limits.cutting`), so it ends with an
error of its limits or ends as the other does (`Reader.CutsOff`).  Where the two sides have some limits in common, the
errors of these are not among those to give up with (`Limits.Cuts`).
-/

namespace CompactWire

open Outcome

/-! ### Tighter and looser -/

/-- No limit of the first is above that of the second. -/
structure Limits.Le (tight loose : Limits) : Prop where
  maxString : tight.maxString ≤ loose.maxString
  maxContainer : tight.maxContainer ≤ loose.maxContainer
  maxDepth : tight.maxDepth ≤ loose.maxDepth

instance : LE Limits where
  le := Limits.Le

/-- An error that tells that a limit was hit. -/
def Error.OfLimits : Error → Prop
  | .lengthExceeded _ _ | .depthExceeded _ => True
  | _ => False

variable {tight loose : Limits} {givesUp : Error → Prop}

/-- Where the two differ, the first limits are tighter, and `givesUp` holds of the errors that they lead to. -/
structure Limits.Cuts (givesUp : Error → Prop) (tight loose : Limits) : Prop where
  maxString : Tightens (GivesUpAtLength givesUp) loose.maxString tight.maxString
  maxContainer : Tightens (GivesUpAtLength givesUp) loose.maxContainer tight.maxContainer
  maxDepth : Tightens (givesUp (.depthExceeded tight.maxDepth)) loose.maxDepth tight.maxDepth

theorem Limits.Le.cuts (h : tight ≤ loose) : Cuts Error.OfLimits tight loose where
  maxString := Or.inr ⟨h.maxString, fun _ _ => trivial⟩
  maxContainer := Or.inr ⟨h.maxContainer, fun _ _ => trivial⟩
  maxDepth := Or.inr ⟨h.maxDepth, trivial⟩

/-- The same byte string with looser limits and with tighter ones, which may cut the second side off. -/
def Limits.cutting (h : Cuts givesUp tight loose) : Link Bytes Bytes where
  states n i j := n = j.length ∧ i = j
  failed _ i j := i = j
  givesUp := givesUp
  limits l l' := l = loose ∧ l' = tight
  remaining := by
    rintro n i j ⟨rfl, rfl⟩
    exact ⟨Nat.le_refl _, Nat.le_refl _⟩
  failed_of_ne := fun _ hs => hs.2
  readByte n := by
    rintro i j ⟨rfl, rfl⟩
    cases i with
    | nil => exact .error rfl
    | cons b i => exact .ok ⟨rfl, i.length, Nat.le_refl _, rfl, rfl⟩
  readSpan length := by
    rintro - ⟨rfl, rfl⟩
    rename_i i
    show BothEnd _ _ _ (Bytes.readSpan length i) (Bytes.readSpan length i)
    unfold Bytes.readSpan
    by_cases hshort : i.length < length
    · rw [if_pos hshort]
      exact .error rfl
    · rw [if_neg hshort]
      refine .ok ⟨rfl, (i.drop length).length, ?_, rfl, rfl⟩
      rw [List.length_drop]
      exact Nat.sub_le _ _
  tightens := by
    rintro l l' ⟨rfl, rfl⟩
    refine ⟨h.maxString, h.maxContainer, h.maxDepth.imp_right (And.imp_right ?_)⟩
    rintro hgive _ _ ⟨rfl, rfl⟩
    exact hgive

/-! ### Readings -/

namespace Reader

variable {α : Type}

/-- The same session with other limits. -/
def withLimits (limits : Limits) (r : Reader Bytes) : Reader Bytes := { r with limits }

/-- From any session, the tighter limits end the reading with an error of their own, or the looser ones end it in the
same way, with the same result or error and with the session as it is left there. -/
def CutsOff (tight loose : Limits) (x : Reading Bytes α) : Prop := ∀ r : Reader Bytes,
  (∃ e r', x (r.withLimits tight) = .error e r' ∧ e.OfLimits) ∨
    x (r.withLimits loose) = onState (withLimits loose) (x (r.withLimits tight))

theorem eq_withLimits_of_linked {h : Limits.Cuts givesUp tight loose} {r r' : Reader Bytes}
    (hr : (Limits.cutting h).Linked Eq r r') : r = r'.withLimits loose := by
  obtain ⟨input, limits, parents, lastId, pendingBool⟩ := r
  obtain ⟨hinput, ⟨hlimits, -⟩, hparents, hlastId, hpending⟩ := hr
  subst hinput hlimits hparents hlastId hpending
  rfl

/-- The tighter side gives up, or both sides end in the same way. -/
theorem gives_up_or_same {h : Limits.Cuts givesUp tight loose} {x : Reading Bytes α}
    (hx : ∀ n, (Limits.cutting h).SameReading n 0 x x) (r : Reader Bytes) :
    (∃ e r', x (r.withLimits tight) = .error e r' ∧ givesUp e) ∨
      x (r.withLimits loose) = onState (withLimits loose) (x (r.withLimits tight)) := by
  have hends := hx r.input.length (r.withLimits loose) (r.withLimits tight) ⟨⟨rfl, rfl⟩, ⟨rfl, rfl⟩, rfl, rfl, rfl⟩
  generalize x (r.withLimits loose) = o at hends ⊢
  generalize x (r.withLimits tight) = o' at hends ⊢
  cases hends with
  | ok hgood =>
    obtain ⟨rfl, m, -, hlinked⟩ := hgood
    have hstate := eq_withLimits_of_linked { hlinked with input := hlinked.input.2 }
    exact Or.inr (congrArg _ hstate)
  | error hlinked => exact Or.inr (congrArg _ (eq_withLimits_of_linked hlinked))
  | gaveUp he => exact Or.inl ⟨_, _, rfl, he⟩

variable (h : tight ≤ loose)
include h

theorem cutsOff_value (type : WireType) : CutsOff tight loose (value type) :=
  gives_up_or_same fun _ => (Limits.cutting h.cuts).agrees_value type

theorem cutsOff_skip (type : WireType) : CutsOff tight loose (skip type) :=
  gives_up_or_same fun _ => (Limits.cutting h.cuts).agrees_skip type

theorem cutsOff_record : CutsOff tight loose record :=
  gives_up_or_same fun _ => (Limits.cutting h.cuts).agrees_record

end Reader

/-! ### Whole byte strings -/

namespace Record

theorem decode_gives_up_or_same (h : Limits.Cuts givesUp tight loose) (bytes : Bytes) :
    (∃ e, decode tight bytes = .error e ∧ givesUp e) ∨ decode loose bytes = decode tight bytes := by
  have hrecord := Reader.gives_up_or_same (fun _ => (Limits.cutting h).agrees_record)
    { input := bytes, limits := tight }
  unfold decode
  rcases hrecord with ⟨e, r', herror, he⟩ | hsame
  · left
    refine ⟨e, ?_, he⟩
    rw [show Reader.record { input := bytes, limits := tight } = .error e r' from herror]
  · right
    rw [show Reader.record { input := bytes, limits := loose } =
      onState (Reader.withLimits loose) (Reader.record { input := bytes, limits := tight }) from hsame]
    cases Reader.record { input := bytes, limits := tight } <;> rfl

theorem decode_cutsOff (h : tight ≤ loose) (bytes : Bytes) :
    (∃ e, decode tight bytes = .error e ∧ e.OfLimits) ∨ decode loose bytes = decode tight bytes :=
  decode_gives_up_or_same h.cuts bytes

theorem decode_of_le (h : tight ≤ loose) {bytes : Bytes} {s : Record} (hs : decode tight bytes = .ok s) :
    decode loose bytes = .ok s := by
  rcases decode_cutsOff h bytes with ⟨e, herror, -⟩ | hsame
  · rw [hs] at herror
    cases herror
  · rw [hsame, hs]

end Record

/-- **Limits cut off and change nothing else**: reading values and records, skipping, and decoding end with an error of
the tighter limits, or just as with the looser ones.  So what decodes still does when limits are raised. -/
theorem Limits.cuts_off (h : tight ≤ loose) :
    (∀ type, Reader.CutsOff tight loose (Reader.value type)) ∧ (∀ type, Reader.CutsOff tight loose (Reader.skip type)) ∧
      Reader.CutsOff tight loose Reader.record ∧
      (∀ bytes, (∃ e, Record.decode tight bytes = .error e ∧ e.OfLimits) ∨
        Record.decode loose bytes = Record.decode tight bytes) ∧
      ∀ bytes s, Record.decode tight bytes = .ok s → Record.decode loose bytes = .ok s :=
  ⟨Reader.cutsOff_value h, Reader.cutsOff_skip h, Reader.cutsOff_record h, Record.decode_cutsOff h,
    fun _ _ hs => Record.decode_of_le h hs⟩

/-- A list in a list, which two levels cut off; and in the middle of a struct, a list whose boolean is the pending
one. -/
theorem Limits.cuts_off_nested :
    let bytes : Bytes := [25, 25, 35, 1, 2, 0]
    let nested : Record := [(1, .list .list [.list .byte [.byte 1, .byte 2]])]
    let amid (input : Bytes) (pendingBool : Option Bool) : Reader Bytes :=
      { input, limits := {}, parents := [3], lastId := 5, pendingBool }
    (Limits.Le { maxDepth := 2 } {} ∧ Limits.Le { maxDepth := 3 } {}) ∧
      Record.decode { maxDepth := 2 } bytes = .error (.depthExceeded 2) ∧ Record.decode {} bytes = .ok nested ∧
      Reader.skip .list (amid [17, 9] (some true)) = .ok () (amid [9] none) := by
  intro bytes nested amid
  have htwo : Limits.Le { maxDepth := 2 } {} := ⟨Nat.le_refl _, Nat.le_refl _, by decide⟩
  have hthree : Limits.Le { maxDepth := 3 } {} := ⟨Nat.le_refl _, Nat.le_refl _, by decide⟩
  have hcut : Record.decode { maxDepth := 2 } bytes = .error (.depthExceeded 2) := by cbv
  have hdecode : Record.decode { maxDepth := 3 } bytes = .ok nested := by cbv
  refine ⟨⟨htwo, hthree⟩, hcut, (cuts_off hthree).2.2.2.2 bytes nested hdecode, ?_⟩
  have hskip : Reader.skip .list ((amid [17, 9] (some true)).withLimits { maxDepth := 2 }) =
      .ok () ((amid [9] none).withLimits { maxDepth := 2 }) := rfl
  rcases (cuts_off htwo).2.1 .list (amid [17, 9] (some true)) with ⟨e, r', herror, -⟩ | hsame
  · rw [hskip] at herror
    cases herror
  · rw [hskip] at hsame
    exact hsame

end CompactWire

import CompactWire.Proofs.Pieces

/-!
# CompactWire.Proofs.DeferredBooleans — the header of a boolean field waits for its boolean

The header of a boolean field is not written when it is begun: it holds the boolean, so it waits for it.  Meanwhile the
calls that would write another header, or end a struct, are refused, so there is one boolean at a time to wait for and
none gets lost: every header that was begun is written with the next boolean, and a boolean is a byte of its own just
where no header waits.

`Awaited id earlier` says that after the steps `earlier` the header of field `id` waits; it looks at the calls only.
`deferred` relates it to the writer and to the pieces that it has appended, at every step of every session, calls for
whole values taken apart.
-/

namespace CompactWire.Writer

open Outcome

/-- Whether a boolean is written. -/
def Call.isBool : Call → Bool
  | .bool _ => true
  | _ => false

namespace Step

/-- The boolean field that the call begins, if it is one that succeeds. -/
def begun (s : Step) : Option Int16 :=
  match s.call, s.outcome with
  | .fieldBegin ⟨id, .bool⟩, .ok _ _ => some id
  | _, _ => none

/-- How many headers of boolean fields are among what the step appends. -/
def headers (s : Step) : Nat := s.pieces.countP Piece.isBool

end Step

/-- After these steps the header of the boolean field `id` waits: it was begun, and no boolean was written since. -/
def Awaited (id : Int16) (earlier : List Step) : Prop :=
  ∃ before s since, earlier = before ++ s :: since ∧ s.begun = some id ∧ ∀ t ∈ since, t.call.isBool = false

variable {id : Int16} {earlier : List Step} {s : Step}

theorem not_awaited_nil : ¬Awaited id [] := by
  rintro ⟨before, s, since, h, -⟩
  exact absurd h.symm (List.append_ne_nil_of_right_ne_nil _ (List.cons_ne_nil _ _))

/-- What waits after one more step. -/
theorem awaited_concat : Awaited id (earlier ++ [s]) ↔
    s.begun = some id ∨ Awaited id earlier ∧ s.call.isBool = false := by
  constructor
  · rintro ⟨before, t, since, hsplit, hbegun, hsince⟩
    rcases List.eq_nil_or_concat since with rfl | ⟨since, u, rfl⟩
    · obtain ⟨-, hlast⟩ := List.append_inj' hsplit rfl
      cases hlast
      exact Or.inl hbegun
    · have hsplit : earlier ++ [s] = (before ++ t :: since) ++ [u] := by simpa using hsplit
      obtain ⟨rfl, hlast⟩ := List.append_inj' hsplit rfl
      cases hlast
      rw [List.concat_eq_append, List.forall_mem_append] at hsince
      exact Or.inr ⟨⟨before, t, since, rfl, hbegun, hsince.1⟩, hsince.2 s List.mem_cons_self⟩
  · rintro (hbegun | ⟨⟨before, t, since, rfl, hbegun, hsince⟩, hs⟩)
    · exact ⟨earlier, s, [], rfl, hbegun, List.forall_mem_nil _⟩
    · refine ⟨before, t, since ++ [s], by simp, hbegun, ?_⟩
      exact List.forall_mem_append.2 ⟨hsince, List.forall_mem_singleton.2 hs⟩

/-! ### Steps -/

/-- What a step does to the boolean that is waited for: a boolean ends the wait, an accepted header of a boolean field
begins one where there is none, and anything else leaves it as it is. -/
inductive Step.Turns (s : Step) : Option Int16 → Option Int16 → Prop
  | bool {slot : Option Int16} (isBool : s.call.isBool = true) (begun : s.begun = none)
    (headers : s.headers = slot.toList.length) : Turns s slot none
  | begun {id : Int16} (isBool : s.call.isBool = false) (begun : s.begun = some id)
    (headers : s.headers = 0) : Turns s none (some id)
  | other {slot : Option Int16} (isBool : s.call.isBool = false) (begun : s.begun = none)
    (headers : s.headers = 0) : Turns s slot slot

theorem pendingBool_structEnd (w : Writer) : (left (structEnd w)).pendingBool = w.pendingBool := by
  cases hp : w.pendingBool with
  | some id =>
    rw [structEnd_of_some hp]
    exact hp
  | none =>
    cases hparents : w.parents with
    | nil =>
      rw [structEnd_of_nil hp hparents]
      exact hp
    | cons id parents =>
      rw [structEnd_of_cons hp hparents]
      exact hp

/-- Nothing but a boolean writes the header of a boolean field. -/
theorem Call.countP_pieces {call : Call} (h : call.isBool = false) (w : Writer) :
    (call.pieces w).countP Piece.isBool = 0 := by
  cases call with
  | bool b => cases h
  | fieldBegin header =>
    show List.countP _ (if header.type = .bool then _ else _) = 0
    by_cases htype : header.type = .bool
    · rw [if_pos htype]
      rfl
    · rw [if_neg htype, List.countP_singleton, Piece.isBool_field_code _ _ htype]
      rfl
  | _ => rfl

theorem Step.headers_eq_zero (h : s.call.isBool = false) : s.headers = 0 := by
  unfold headers pieces
  cases s.outcome with
  | ok _ _ => exact Call.countP_pieces h s.before
  | error _ _ => rfl

/-- A boolean writes one header if one waits. -/
theorem Step.headers_bool (w : Writer) (b : Bool) : Step.headers ⟨w, .bool b⟩ = w.pendingBool.toList.length := by
  unfold headers pieces outcome Call.run
  dsimp only
  cases hp : w.pendingBool with
  | none =>
    rw [bool_of_none b hp]
    simp [Call.pieces, hp, Piece.isBool]
  | some id =>
    rw [bool_of_some b hp]
    simp [Call.pieces, hp, Piece.isBool_field_boolCode]

theorem Step.turns_bool (w : Writer) (b : Bool) :
    Step.Turns ⟨w, .bool b⟩ w.pendingBool ((Call.bool b).after w).pendingBool := by
  have hafter : ((Call.bool b).after w).pendingBool = none := by
    rw [Call.after_eq]
    cases hp : w.pendingBool with
    | none => exact (congrArg (fun o => (left o).pendingBool) (bool_of_none b hp)).trans hp
    | some id => exact congrArg (fun o => (left o).pendingBool) (bool_of_some b hp)
  rw [hafter]
  exact .bool rfl rfl (headers_bool w b)

theorem Step.begun_bool (w : Writer) (id : Int16) : Step.begun ⟨w, .fieldBegin ⟨id, .bool⟩⟩ =
    match fieldBegin ⟨id, .bool⟩ w with
    | .ok _ _ => some id
    | .error _ _ => none := by
  unfold Step.begun Step.outcome Call.run
  dsimp only
  cases fieldBegin ⟨id, .bool⟩ w <;> rfl

theorem Step.begun_eq_none (w : Writer) {header : FieldHeader} (htype : header.type ≠ .bool) :
    Step.begun ⟨w, .fieldBegin header⟩ = none := by
  unfold Step.begun
  split
  · rename_i hcall _
    cases hcall
    exact absurd rfl htype
  · rfl

theorem Step.turns_fieldBegin (w : Writer) (header : FieldHeader) :
    Step.Turns ⟨w, .fieldBegin header⟩ w.pendingBool ((Call.fieldBegin header).after w).pendingBool := by
  by_cases htype : header.type = .bool
  · obtain ⟨id, type⟩ := header
    subst htype
    have hbegun := begun_bool w id
    rw [Call.after_eq]
    show Step.Turns _ _ (left (fieldBegin ⟨id, .bool⟩ w)).pendingBool
    cases hp : w.pendingBool with
    | none =>
      rw [fieldBegin_bool id hp] at hbegun ⊢
      exact .begun rfl hbegun (headers_eq_zero rfl)
    | some id' =>
      rw [fieldBegin_of_some _ hp] at hbegun ⊢
      show Step.Turns _ _ w.pendingBool
      rw [hp]
      exact .other rfl hbegun (headers_eq_zero rfl)
  · have hplain : (Call.fieldBegin header).Plain := htype
    rw [(hplain.after w).2]
    exact .other rfl (begun_eq_none w htype) (headers_eq_zero rfl)

theorem Step.turns (hsingle : s.call.Single) : s.Turns s.before.pendingBool (s.call.after s.before).pendingBool := by
  obtain ⟨w, call⟩ := s
  have hplain : ∀ {call : Call}, call.Plain → call.isBool = false → Step.begun ⟨w, call⟩ = none →
      Step.Turns ⟨w, call⟩ w.pendingBool (call.after w).pendingBool := by
    intro call hplain hbool hbegun
    rw [(hplain.after w).2]
    exact .other hbool hbegun (headers_eq_zero hbool)
  cases call with
  | bool b => exact turns_bool w b
  | fieldBegin header => exact turns_fieldBegin w header
  | structBegin => exact .other rfl rfl (headers_eq_zero rfl)
  | structEnd =>
    dsimp only
    rw [Call.after_eq, show left (Call.structEnd.run w) = left (structEnd w) from rfl, pendingBool_structEnd]
    exact .other rfl rfl (headers_eq_zero rfl)
  | value _ | record _ => exact hsingle.elim
  | _ => exact hplain trivial rfl rfl

/-- A header of a boolean field that is accepted appends nothing. -/
theorem Step.outcome_of_begun (h : s.begun = some id) :
    s.outcome = .ok () { s.before with pendingBool := some id } := by
  obtain ⟨w, call⟩ := s
  unfold begun at h
  split at h
  · rename_i _ _ w' hcall hrun
    cases h
    cases hcall
    have hbegin : fieldBegin ⟨id, .bool⟩ w = .ok () w' := hrun
    rw [hrun, fieldBegin_eq_ok hbegin]
    rfl
  · cases h

/-! ### Sessions -/

/-- What the writer waits for is what waits by the calls made, and every header that was begun is among the pieces of
the steps or waits. -/
structure Slot (earlier : List Step) (w : Writer) : Prop where
  awaited : ∀ id, w.pendingBool = some id ↔ Awaited id earlier
  counted : (earlier.flatMap Step.pieces).countP Piece.isBool + w.pendingBool.toList.length =
    earlier.countP (·.begun.isSome)

theorem slot_nil : Slot [] {} := ⟨fun _ => ⟨fun h => (by cases h), fun h => absurd h not_awaited_nil⟩, rfl⟩

theorem Slot.step (hsingle : s.call.Single) (h : Slot earlier s.before) :
    Slot (earlier ++ [s]) (s.call.after s.before) := by
  obtain ⟨hawaited, hcounted⟩ := h
  have hturns := Step.turns hsingle
  generalize s.before.pendingBool = slot at hawaited hcounted hturns
  constructor
  · intro id
    rw [awaited_concat, ← hawaited]
    generalize (s.call.after s.before).pendingBool = slot' at hturns ⊢
    cases hturns with
    | bool hbool hbegun => simp [hbool, hbegun]
    | begun hbool hbegun => rw [hbegun]; simp
    | other hbool hbegun => simp [hbool, hbegun]
  · have hpieces : ((earlier ++ [s]).flatMap Step.pieces).countP Piece.isBool =
        (earlier.flatMap Step.pieces).countP Piece.isBool + s.headers := by
      rw [List.flatMap_append, List.flatMap_singleton, List.countP_append]
      rfl
    rw [hpieces, List.countP_append, List.countP_singleton, ← hcounted]
    generalize (s.call.after s.before).pendingBool = slot' at hturns ⊢
    cases hturns with
    | bool _ hbegun hheaders => simp [hbegun, hheaders]
    | begun _ hbegun hheaders => simp [hbegun, hheaders]
    | other _ hbegun hheaders => simp [hbegun, hheaders]

/-- What holds of the booleans of a session. -/
structure Deferred (calls : List Call) : Prop where
  /-- The steps lead to the writer that the session leaves. -/
  leads : Leads {} (steps calls {}) (((session calls {}).map Prod.snd).getLastD {})
  /-- A header of a boolean field that is accepted only starts to wait: not a byte is written. -/
  begun {earlier : List Step} {s : Step} {later : List Step} {id : Int16} :
    steps calls {} = earlier ++ s :: later → s.begun = some id →
    s.outcome = .ok () { s.before with pendingBool := some id }
  /-- While a header waits, what would write another one or end a struct is refused and changes nothing. -/
  refused {earlier : List Step} {s : Step} {later : List Step} {id : Int16} :
    steps calls {} = earlier ++ s :: later → Awaited id earlier → s.call.Waits →
    s.outcome = .error (.pendingBool id) s.before
  /-- The next boolean writes the header that waits, with the boolean in its code, and nothing else. -/
  completed {earlier : List Step} {s : Step} {later : List Step} {id : Int16} {b : Bool} :
    steps calls {} = earlier ++ s :: later → Awaited id earlier → s.call = .bool b →
    s.outcome = .ok () (({ s.before with pendingBool := none } : Writer).addFields
      (fieldHead s.before.lastId id (WireType.boolCode b)) id)
  /-- Where no header waits a boolean is a byte of its own. -/
  plain {earlier : List Step} {s : Step} {later : List Step} {b : Bool} :
    steps calls {} = earlier ++ s :: later → (∀ id, ¬Awaited id earlier) → s.call = .bool b →
    s.outcome = .ok () (s.before.add [nibbles 0 (WireType.boolCode b)])
  /-- No header is begun while another waits. -/
  single {earlier : List Step} {s : Step} {later : List Step} {id : Int16} :
    steps calls {} = earlier ++ s :: later → s.begun = some id → ∀ id', ¬Awaited id' earlier
  /-- The writer keeps the one that waits. -/
  slot : ∀ id, (final calls {}).pendingBool = some id ↔ Awaited id (steps calls {})
  /-- Each step appends the bytes of its pieces and no others. -/
  appended {earlier : List Step} {s : Step} {later : List Step} : steps calls {} = earlier ++ s :: later →
    (s.call.after s.before).out.toList = s.before.out.toList ++ s.pieces.flatMap Piece.bytes
  /-- A call for anything but a boolean, accepted or refused, writes no header of a boolean field. -/
  others {earlier : List Step} {s : Step} {later : List Step} : steps calls {} = earlier ++ s :: later →
    s.call.isBool = false → s.pieces.countP Piece.isBool = 0
  /-- What the session has written are these pieces, one after the other. -/
  written : (final calls {}).out.toList = ((steps calls {}).flatMap Step.pieces).flatMap Piece.bytes
  /-- Every header that was begun is written once, or waits. -/
  counted : ((steps calls {}).flatMap Step.pieces).countP Piece.isBool +
    (final calls {}).pendingBool.toList.length = (steps calls {}).countP (·.begun.isSome)

/-- **Headers of boolean fields are neither lost nor doubled nor overwritten**, in every session of a writer, whatever
the calls and however they end. -/
theorem deferred (calls : List Call) : Deferred calls := by
  obtain ⟨halong, hfinal⟩ := holds_along slot_nil (fun _ _ hsingle h => h.step hsingle) calls
  have hsingle {earlier : List Step} {s : Step} {later : List Step} (hsplit : steps calls {} = earlier ++ s :: later) :
      s.call.Single := single_steps calls {} s (by rw [hsplit]; simp)
  refine ⟨?_, fun _ hbegun => Step.outcome_of_begun hbegun, ?_, ?_, ?_, ?_, hfinal.awaited,
    fun hsplit => Step.out_after (hsingle hsplit), fun _ hbool => Step.headers_eq_zero hbool, out_final calls,
    hfinal.counted⟩
  · rw [getLastD_session]
    exact leads_steps calls {}
  · intro earlier s later id hsplit hawaited hwaits
    have hpending := ((halong earlier s later hsplit).awaited id).2 hawaited
    have hrejected : s.call.Rejected s.before (.pendingBool id) [] := .pending hwaits hpending
    rw [Step.outcome, hrejected.run_eq, add_nil]
  · intro earlier s later id b hsplit hawaited hbool
    have hpending := ((halong earlier s later hsplit).awaited id).2 hawaited
    rw [Step.outcome, hbool]
    exact bool_of_some b hpending
  · intro earlier s later b hsplit hnone hbool
    rw [Step.outcome, hbool]
    refine bool_of_none b (Option.eq_none_iff_forall_ne_some.2 fun id hpending => ?_)
    exact hnone id (((halong earlier s later hsplit).awaited id).1 hpending)
  · intro earlier s later id hsplit hbegun id' hawaited
    have hpending := ((halong earlier s later hsplit).awaited id').2 hawaited
    have hturns := Step.turns (hsingle hsplit)
    rw [hpending] at hturns
    generalize (s.call.after s.before).pendingBool = slot' at hturns
    cases hturns with
    | bool _ hnone => exact absurd (hnone.symm.trans hbegun) (by simp)
    | other _ hnone => exact absurd (hnone.symm.trans hbegun) (by simp)

/-- A header waits through three refused calls, and the boolean after the next one is a byte of its own. -/
example : (session [.fieldBegin ⟨3, .bool⟩, .fieldBegin ⟨4, .i32⟩, .fieldStop, .structEnd, .bool true, .bool false]
    {}).map (fun step => (step.2.out.toList, step.2.pendingBool)) =
      [([], some 3), ([], some 3), ([], some 3), ([], some 3), ([0x31], none), ([0x31, 0x02], none)] := by decide

end CompactWire.Writer

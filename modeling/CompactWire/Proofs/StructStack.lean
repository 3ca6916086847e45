import CompactWire.Proofs.ContextFree
import CompactWire.Proofs.Coupling
import CompactWire.Proofs.Steps

/-!
# CompactWire.Proofs.StructStack — structs are closed in the order in which they are opened

Readers and writers may be called in any order, and calls may fail, also in the midst of a value with structs in it,
which then stay open.  Still the open structs are a stack: the depth is the number of structs that were opened and not
closed, and closing one brings back the last field id that was left behind when the depth last went up from there.

For a reader the chronicle is kept by the gates that all structs go through (`Reader.Stacked`), for a writer it is read
off the single calls of the session (`Writer.Stacked`).  `struct_stack` has both.
-/

namespace CompactWire

open Outcome Chronicle

/-! ### Readers -/

namespace Reader

variable {ι span : Type}

/-- The reader without its chronicle. -/
def unnoted (r : Reader (Noted Chronicle ι)) : Reader ι := ⟨r.input.input, r.limits, r.parents, r.lastId, r.pendingBool⟩

/-- The chronicle is that of the open structs, and none of them lies too deep. -/
structure Kept (limits : Limits) (parents : List Int16) (c : Chronicle) : Prop where
  tells : Tells c parents
  depth_le : parents.length ≤ limits.maxDepth
  opened_lt : ∀ depth id, .opened depth id ∈ c → depth < limits.maxDepth

theorem kept_nil (limits : Limits) : Kept limits [] [] :=
  ⟨tells_nil, Nat.zero_le _, fun _ _ h => absurd h List.not_mem_nil⟩

variable {limits : Limits} {parents : List Int16} {c : Chronicle} {id : Int16}

theorem Kept.opened (h : Kept limits parents c) (id : Int16) (hdepth : parents.length < limits.maxDepth) :
    Kept limits (id :: parents) (.opened parents.length id :: c) := by
  refine ⟨h.tells.opened id, hdepth, fun depth id' hm => ?_⟩
  rcases List.mem_cons.1 hm with heq | hm
  · cases heq
    exact hdepth
  · exact h.opened_lt depth id' hm

theorem Kept.closed (h : Kept limits (id :: parents) c) : Kept limits parents (.closed parents.length id :: c) := by
  refine ⟨h.tells.closed, Nat.le_of_lt h.depth_le, fun depth id' hm => ?_⟩
  rcases List.mem_cons.1 hm with heq | hm
  · cases heq
  · exact h.opened_lt depth id' hm

theorem structEnd_of_nil {r : Reader ι} (h : r.parents = []) : structEnd r = .error .structUnderflow r := by
  refine (bind_of_ok (x := get) (a := r) rfl).trans ?_
  rw [h]
  rfl

theorem structBegin_of_le {r : Reader ι} (h : r.limits.maxDepth ≤ r.depth) :
    structBegin r = .error (.depthExceeded r.limits.maxDepth) r := by
  refine (bind_of_ok (x := get) (a := r) rfl).trans ?_
  rw [if_pos h]
  rfl

variable [Input ι span]

/-- Noting structs changes nothing else. -/
def noting (limits : Limits) : Coupling limits (Noted Chronicle ι) ι where
  inputs parents i j := i.input = j ∧ Kept limits parents i.notes
  failed _ := True
  failed_own _ := trivial
  remaining h := congrArg Input.remaining h.1
  readByte := by
    rintro parents i _ ⟨rfl, hkept⟩
    show BothEnd _ _ _ (Noted.within Input.readByte i) _
    unfold Noted.within
    split <;> rename_i heq <;> rw [heq]
    · exact .ok ⟨rfl, rfl, hkept⟩
    · exact .error ⟨trivial, rfl, hkept⟩
  readSpan := by
    rintro parents i _ length - ⟨rfl, hkept⟩
    show BothEnd _ _ _ (Noted.within (Input.readSpan length) i) _
    unfold Noted.within
    split <;> rename_i heq <;> rw [heq]
    · exact .ok ⟨rfl, rfl, fun _ => trivial, rfl, hkept⟩
    · exact .error ⟨trivial, rfl, hkept⟩

variable {r : Reader (Noted Chronicle ι)} {r' : Reader ι}

theorem unnoted_of_coupled (h : (noting limits).Coupled r r') : r.unnoted = r' := by
  have hlimits : r.limits = r'.limits := h.left_limits.trans h.right_limits.symm
  rw [unnoted, h.input.1, hlimits, h.parents, h.lastId, h.pendingBool]

theorem same_enter : (noting (ι := ι) limits).Same Gates.noted.enter structBegin := by
  intro n r r' h
  by_cases hdepth : limits.maxDepth ≤ r'.depth
  · have hfull : r.limits.maxDepth ≤ r.depth := by rwa [h.depth, h.left_limits]
    have henter : Gates.noted.enter r = .error (.depthExceeded r.limits.maxDepth) r :=
      (bind_of_ok (x := get) (a := r) rfl).trans (bind_of_error (structBegin_of_le hfull))
    rw [henter, structBegin_of_le (h.right_limits ▸ hdepth), h.left_limits, h.right_limits]
    exact .error ⟨trivial, h⟩
  · have hroom : r'.depth < limits.maxDepth := Nat.not_le.1 hdepth
    have hroom' : r.depth < r.limits.maxDepth := by rwa [h.depth, h.left_limits]
    have henter : Gates.noted.enter r = .ok () { r with
        input := { r.input with notes := .opened r.depth r.lastId :: r.input.notes }
        parents := r.lastId :: r.parents
        lastId := 0 } :=
      (bind_of_ok (x := get) (a := r) rfl).trans (bind_of_ok (structBegin_eq_ok.2 ⟨hroom', rfl⟩))
    rw [henter, structBegin_eq_ok.2 ⟨by rwa [h.right_limits], rfl⟩]
    refine .ok ⟨rfl, n, Nat.le_refl n, ?_⟩
    refine { h with input := ⟨h.input.1, ?_⟩, parents := ?_, lastId := rfl }
    · show Kept limits (r'.lastId :: r'.parents) (.opened r.depth r.lastId :: r.input.notes)
      rw [h.depth, h.lastId]
      exact h.input.2.opened r'.lastId hroom
    · show r.lastId :: r.parents = r'.lastId :: r'.parents
      rw [h.lastId, h.parents]

theorem same_leave : (noting (ι := ι) limits).Same Gates.noted.leave structEnd := by
  intro n r r' h
  cases hparents : r'.parents with
  | nil =>
    have hclosed : structEnd r = .error .structUnderflow r := structEnd_of_nil (h.parents.trans hparents)
    have hleave : Gates.noted.leave r = .error .structUnderflow r := bind_of_error hclosed
    rw [hleave, structEnd_of_nil hparents]
    exact .error ⟨trivial, h⟩
  | cons id parents =>
    have hleave : Gates.noted.leave r = .ok () { r with
        input := { r.input with notes := .closed parents.length id :: r.input.notes }
        parents
        lastId := id } := bind_of_ok (structEnd_eq (h.parents.trans hparents))
    rw [hleave, structEnd_eq hparents]
    have hkept := h.input.2
    rw [hparents] at hkept
    exact .ok ⟨rfl, n, Nat.le_refl n, { h with input := ⟨h.input.1, hkept.closed⟩, parents := rfl, lastId := rfl }⟩

/-! ### A field header that cannot be read -/

/-- The readers differ in their inputs only. -/
def Moved (r r' : Reader ι) : Prop := r' = { r with input := r'.input }

theorem Moved.trans {r r' r'' : Reader ι} (h : Moved r r') (h' : Moved r' r'') : Moved r r'' := by
  unfold Moved at *
  rw [h', h]

/-- Whether it succeeds or fails, it moves on in the input and nothing else. -/
def Moves {α : Type} (x : Reading ι α) : Prop := ∀ r, Ends (fun _ t => Moved r t) (Moved r) (x r)

theorem moves_onInput {α : Type} (x : EStateM Error ι α) : Moves (onInput x) := fun r => by
  unfold onInput
  cases x r.input <;> rfl

theorem moves_typeOf (code : Nat) : Moves (typeOf code : Reading ι WireType) := fun r => by
  unfold typeOf
  cases WireType.ofCode? code <;> rfl

theorem Moves.map {α β : Type} {x : Reading ι α} (hx : Moves x) (f : α → β) : Moves (do return f (← x)) :=
  fun r => ends_bind (hx r) fun _ _ h => h

theorem moves_fieldId (step : Nat) : Moves (fieldId step : Reading ι Int16) := by
  unfold fieldId
  split
  · exact ((moves_onInput _).map Int32.ofInt).map Int32.toInt16
  · exact fun r => rfl

/-- A field header that cannot be read leaves everything but the input: what it tells is kept when all of it is there. -/
theorem moved_of_fieldBegin {r r' : Reader ι} {e : Error} (h : fieldBegin r = .error e r') : Moved r r' := by
  have hends : Ends (fun _ _ => True) (Moved r) (fieldBegin r) := by
    refine ends_bind (moves_onInput _ r) fun b r₁ h₁ => ?_
    dsimp only
    split
    · trivial
    · refine ends_bind ((moves_typeOf _ r₁).mono (fun _ _ => h₁.trans) fun _ => h₁.trans) fun type r₂ h₂ => ?_
      split
      · exact h₂
      · refine ends_bind ((moves_fieldId _ r₂).mono (fun _ _ => h₂.trans) fun _ => h₂.trans) fun id r₃ _ => ?_
        trivial
  rw [h] at hends
  exact hends

/-! ### What holds of a reading session -/

/-- What holds of the structs of a reading session. -/
structure Stacked (input : ι) (limits : Limits) (calls : List Call) : Prop where
  /-- Noting structs changes nothing else. -/
  unnoted : session calls { input, limits } =
    (Gates.noted.session calls { input := ⟨input, []⟩, limits }).map fun step => (step.1, step.2.unnoted)
  /-- Wherever a call ends, the chronicle tells which structs are open, and none was opened too deep. -/
  kept : ∀ step ∈ Gates.noted.session calls { input := ⟨input, []⟩, limits },
    Kept limits step.2.parents step.2.input.notes
  /-- The depth is the number of structs that were opened and not closed. -/
  balance : ∀ step ∈ Gates.noted.session calls { input := ⟨input, []⟩, limits },
    step.2.input.notes.closings + step.2.depth = step.2.input.notes.openings

theorem stacked (input : ι) (limits : Limits) (calls : List Call) : Stacked input limits calls := by
  have hstart : (noting limits).Coupled { input := ⟨input, []⟩, limits } { input, limits } :=
    ⟨⟨rfl, kept_nil limits⟩, rfl, rfl, rfl, rfl, rfl⟩
  have hkept : ∀ step ∈ Gates.noted.session calls { input := ⟨input, []⟩, limits },
      Kept limits step.2.parents step.2.input.notes := by
    intro step hstep
    obtain ⟨⟨r', hcoupled⟩, -⟩ := (noting limits).coupled_of_mem same_enter same_leave hstart hstep
    rw [hcoupled.parents]
    exact hcoupled.input.2
  exact ⟨(noting limits).session_eq_map same_enter same_leave unnoted_of_coupled calls hstart, hkept,
    fun step hstep => (hkept step hstep).tells.1.balance⟩

/-- A struct cannot be closed just if none is open, and then nothing changes. -/
theorem structEnd_eq_error_iff {ι : Type} {r r' : Reader ι} {e : Error} :
    structEnd r = .error e r' ↔ r.depth = 0 ∧ e = .structUnderflow ∧ r' = r := by
  unfold depth
  cases hparents : r.parents with
  | nil =>
    rw [structEnd_of_nil hparents, EStateM.Result.error.injEq]
    exact ⟨fun ⟨he, hr⟩ => ⟨rfl, he.symm, hr.symm⟩, fun ⟨_, he, hr⟩ => ⟨he.symm, hr.symm⟩⟩
  | cons id parents =>
    rw [structEnd_eq hparents]
    exact ⟨fun h => (by cases h), fun h => (by cases h.1)⟩

end Reader

/-! ### Writers -/

namespace Writer

variable {w w' : Writer} {id : Int16} {s : Step} {c : Chronicle}

/-- Only calls that open or close a struct have to do with the open structs. -/
theorem Step.quiet (hsingle : s.call.Single) (hbegin : s.call ≠ .structBegin) (hend : s.call ≠ .structEnd) :
    s.note c = c ∧ (s.call.after s.before).parents = s.before.parents := by
  obtain ⟨w, call⟩ := s
  dsimp only at *
  refine ⟨by cases call <;> first | rfl | exact absurd rfl hbegin | exact absurd rfl hend, ?_⟩
  have hplain : ∀ {call : Call}, call.Plain → (call.after w).parents = w.parents := fun h => (h.after w).1
  cases call with
  | structBegin => exact absurd rfl hbegin
  | structEnd => exact absurd rfl hend
  | bool b =>
    rw [Call.after_eq]
    cases hp : w.pendingBool with
    | none => exact congrArg (fun o => (left o).parents) (bool_of_none b hp)
    | some id => exact congrArg (fun o => (left o).parents) (bool_of_some b hp)
  | fieldBegin header =>
    obtain ⟨id, type⟩ := header
    by_cases htype : type = .bool
    · subst htype
      rw [Call.after_eq]
      cases hp : w.pendingBool with
      | none => exact congrArg (fun o => (left o).parents) (fieldBegin_bool id hp)
      | some id' => exact congrArg (fun o => (left o).parents) (fieldBegin_of_some ⟨id, .bool⟩ hp)
    · have hcall : (Call.fieldBegin ⟨id, type⟩).Plain := htype
      exact hplain hcall
  | value _ | record _ => exact hsingle.elim
  | _ => exact hplain trivial

theorem Step.note_of_ok (h : structEnd w = .ok () w') : Step.note c ⟨w, .structEnd⟩ = .closed w'.depth w'.lastId :: c := by
  unfold Step.note Step.outcome Call.run
  dsimp only
  rw [h]

theorem Step.note_of_error {e : Error} (h : structEnd w = .error e w') : Step.note c ⟨w, .structEnd⟩ = c := by
  unfold Step.note Step.outcome Call.run
  dsimp only
  rw [h]

/-- What a step does to the open structs is noted. -/
theorem Step.tells (hsingle : s.call.Single) (h : Tells c s.before.parents) :
    Tells (s.note c) (s.call.after s.before).parents := by
  obtain ⟨w, call⟩ := s
  by_cases hbegin : call = .structBegin
  · subst hbegin
    exact h.opened w.lastId
  by_cases hend : call = .structEnd
  · subst hend
    have hafter : Call.structEnd.after w = left (structEnd w) := Call.after_eq _ _
    rw [hafter]
    cases hp : w.pendingBool with
    | some id =>
      rw [Step.note_of_error (structEnd_of_some hp), structEnd_of_some hp]
      exact h
    | none =>
      cases hparents : w.parents with
      | nil =>
        rw [Step.note_of_error (structEnd_of_nil hp hparents), structEnd_of_nil hp hparents]
        exact h
      | cons id parents =>
        rw [Step.note_of_ok (structEnd_of_cons hp hparents), structEnd_of_cons hp hparents]
        rw [show (Step.mk w .structEnd).before.parents = id :: parents from hparents] at h
        exact h.closed
  · obtain ⟨hnote, hparents⟩ := Step.quiet (c := c) hsingle hbegin hend
    rw [hnote, hparents]
    exact h

/-- What holds of the structs of a writing session. -/
structure Stacked (calls : List Call) : Prop where
  /-- The steps lead to the writer that the session leaves. -/
  leads : Leads {} (steps calls {}) (((session calls {}).map Prod.snd).getLastD {})
  /-- At every step the chronicle tells which structs are open. -/
  tells : ∀ earlier s later, steps calls {} = earlier ++ s :: later → Tells (chronicle earlier) s.before.parents
  /-- At every step the depth is the number of structs that were opened and not closed. -/
  balance : ∀ earlier s later, steps calls {} = earlier ++ s :: later →
    (chronicle earlier).closings + s.before.depth = (chronicle earlier).openings
  /-- So it is where the session ends. -/
  tells_final : Tells (chronicle (steps calls {})) (final calls {}).parents

theorem stacked (calls : List Call) : Stacked calls := by
  obtain ⟨halong, hfinal⟩ := holds_along (w := {}) (P := fun earlier w => Tells (chronicle earlier) w.parents) tells_nil
    (fun earlier s hsingle h => by
      unfold chronicle
      rw [List.foldl_append]
      exact Step.tells hsingle h) calls
  refine ⟨?_, halong, fun earlier s later hsplit => (halong earlier s later hsplit).1.balance, hfinal⟩
  rw [getLastD_session]
  exact leads_steps calls {}

/-- No struct is there to be closed just if none is open, with no boolean waited for, and then nothing changes. -/
theorem structEnd_eq_underflow_iff :
    structEnd w = .error .structUnderflow w' ↔ w.depth = 0 ∧ w.pendingBool = none ∧ w' = w := by
  unfold depth
  cases hp : w.pendingBool with
  | some id =>
    rw [structEnd_of_some hp]
    simp
  | none =>
    cases hparents : w.parents with
    | nil =>
      rw [structEnd_of_nil hp hparents]
      simp [eq_comm]
    | cons id parents =>
      rw [structEnd_of_cons hp hparents]
      simp

end Writer

/-! ### Both -/

/-- **The open structs are a stack**, in every session of a reader over any input and in every session of a writer,
whatever the calls and however they end: the depth is the number of structs that were opened and not closed, a reader
never opens more than its limits allow, and closing a struct brings back the last field id from before it was opened.
Only where none is open can none be closed, and then nothing changes.  A field header that a reader cannot read leaves
everything but the input. -/
theorem struct_stack :
    (∀ {ι span : Type} [Input ι span],
      (∀ (input : ι) (limits : Limits) (calls : List Reader.Call), Reader.Stacked input limits calls) ∧
      (∀ (r r' : Reader ι) (e : Error),
        Reader.structEnd r = .error e r' ↔ r.depth = 0 ∧ e = .structUnderflow ∧ r' = r) ∧
      ∀ (r r' : Reader ι) (e : Error), Reader.fieldBegin r = .error e r' → r.Moved r') ∧
    (∀ calls : List Writer.Call, Writer.Stacked calls) ∧
    ∀ w w' : Writer,
      Writer.structEnd w = .error .structUnderflow w' ↔ w.depth = 0 ∧ w.pendingBool = none ∧ w' = w :=
  ⟨fun {_ _} _ => ⟨Reader.stacked, fun _ _ _ => Reader.structEnd_eq_error_iff, fun _ _ _ => Reader.moved_of_fieldBegin⟩,
    Writer.stacked, fun _ _ => Writer.structEnd_eq_underflow_iff⟩

/-- A struct that a failed call has left open is closed as any other. -/
example :
    let calls : List Reader.Call := [.structBegin, .fieldBegin, .skip .struct, .structEnd, .structEnd, .structEnd]
    let r : Reader Bytes := { input := [0x5C, 0x13], limits := {} }
    (Reader.session calls r).map (fun step => (step.2.depth, step.2.lastId)) =
      [(1, 0), (1, 5), (2, 1), (1, 5), (0, 0), (0, 0)] := by decide

end CompactWire

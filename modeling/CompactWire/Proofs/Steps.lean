import CompactWire.Proofs.Rejections
import CompactWire.Writer.Steps

/-!
# CompactWire.Proofs.Steps — what holds along a writing session

The steps of a session lead from the writer that it starts on to the one that it leaves (`leads_steps`), and the calls
in them are all single (`single_steps`).  So what one single call preserves holds at every step (`holds_along`).

Of the two things that a writer keeps for later calls beside the last field id, the open structs and the boolean that is
waited for, most calls change neither (`Call.Plain.calm`), whether they succeed or fail.
-/

namespace CompactWire.Writer

open Outcome

variable {w w' : Writer} {α β : Type}

theorem Call.after_eq (call : Call) (w : Writer) : call.after w = left (call.run w) := by
  unfold after
  cases call.run w <;> rfl

/-! ### From step to step -/

/-- The steps lead from one writer to the other. -/
inductive Leads : Writer → List Step → Writer → Prop
  | nil {w : Writer} : Leads w [] w
  | cons {s : Step} {steps : List Step} {w : Writer} (h : Leads (s.call.after s.before) steps w) :
    Leads s.before (s :: steps) w

theorem Leads.append {u : Writer} {before after : List Step} (h : Leads w before u) (h' : Leads u after w') :
    Leads w (before ++ after) w' := by
  induction h with
  | nil => exact h'
  | cons _ ih => exact .cons (ih h')

theorem leads_stepsOf : ∀ (acts : List Act) (w : Writer), Leads w (stepsOf acts w) (left (perform acts w))
  | [], _ => .nil
  | .check declared element :: acts, w => by
    have hcheck : (Act.check declared element).run = checkType declared element := rfl
    rw [stepsOf, perform, hcheck, checkType]
    by_cases htype : declared = some element.type
    · rw [if_pos htype, if_neg (not_not_intro htype)]
      exact leads_stepsOf acts w
    · rw [if_neg htype, if_pos htype]
      exact .nil
  | .call call :: acts, w => by
    rw [stepsOf, perform]
    refine Leads.cons (s := ⟨w, call⟩) ?_
    show Leads (call.after w) _ (left ((call.run >>= fun _ => perform acts) w))
    rw [call.after_eq]
    cases hrun : call.run w with
    | ok _ w' =>
      rw [bind_of_ok hrun]
      exact leads_stepsOf acts w'
    | error e w' =>
      rw [bind_of_error hrun]
      exact .nil

theorem leads_steps : ∀ (calls : List Call) (w : Writer), Leads w (steps calls w) (final calls w)
  | [], _ => .nil
  | call :: calls, w => by
    refine Leads.append ?_ (leads_steps calls _)
    rw [call.after_eq, ← perform_acts]
    exact leads_stepsOf call.acts w

/-- The writer that a session leaves is the last one that it lists. -/
theorem getLastD_session : ∀ (calls : List Call) (w : Writer),
    ((session calls w).map Prod.snd).getLastD w = final calls w
  | [], _ => rfl
  | call :: calls, w => by
    have ih := getLastD_session calls (call.after w)
    have hsession : (session (call :: calls) w).map Prod.snd =
        call.after w :: (session calls (call.after w)).map Prod.snd := by
      rw [session, call.after_eq]
      cases call.run w <;> rfl
    rw [hsession, List.getLastD_cons, ih]
    rfl

/-! ### Single calls -/

/-- The act is no call for a whole value. -/
def Act.Single : Act → Prop
  | .call c => c.Single
  | .check _ _ => True

mutual

theorem single_valueActs : ∀ v, ∀ act ∈ valueActs v, act.Single
  | .bool _ | .byte _ | .i16 _ | .i32 _ | .i64 _ | .double _ | .binary _ => by
    unfold valueActs
    exact List.forall_mem_singleton.2 trivial
  | .list element elements | .set element elements => by
    unfold valueActs
    exact List.forall_mem_cons.2 ⟨trivial, single_itemActs element elements⟩
  | .map key val pairs => by
    unfold valueActs
    exact List.forall_mem_cons.2 ⟨trivial, single_entryActs key val pairs⟩
  | .struct members => by
    unfold valueActs
    rw [List.forall_mem_cons, List.forall_mem_append, List.forall_mem_singleton]
    exact ⟨trivial, single_fieldActs members, trivial⟩

theorem single_itemActs (element : WireType) : ∀ vs, ∀ act ∈ itemActs element vs, act.Single
  | [] => List.forall_mem_nil _
  | v :: vs => by
    unfold itemActs
    rw [List.forall_mem_cons, List.forall_mem_append]
    exact ⟨trivial, single_valueActs v, single_itemActs element vs⟩

theorem single_entryActs (key val : Option WireType) : ∀ es, ∀ act ∈ entryActs key val es, act.Single
  | [] => List.forall_mem_nil _
  | (k, v) :: rest => by
    unfold entryActs
    rw [List.forall_mem_cons, List.forall_mem_cons, List.forall_mem_append, List.forall_mem_append]
    exact ⟨trivial, trivial, single_valueActs k, single_valueActs v, single_entryActs key val rest⟩

theorem single_fieldActs : ∀ fs, ∀ act ∈ fieldActs fs, act.Single
  | [] => by
    unfold fieldActs
    exact List.forall_mem_singleton.2 trivial
  | (id, v) :: rest => by
    unfold fieldActs
    rw [List.forall_mem_cons, List.forall_mem_append]
    exact ⟨trivial, single_valueActs v, single_fieldActs rest⟩

end

theorem single_acts (call : Call) : ∀ act ∈ call.acts, act.Single := by
  cases call with
  | value v | record v => exact single_valueActs _
  | _ => exact List.forall_mem_singleton.2 trivial

theorem single_stepsOf : ∀ {acts : List Act} (_ : ∀ act ∈ acts, act.Single) (w : Writer),
    ∀ s ∈ stepsOf acts w, s.call.Single
  | [], _, _ => List.forall_mem_nil _
  | .check declared element :: acts, h, w => by
    unfold stepsOf
    split
    · exact single_stepsOf (List.forall_mem_cons.1 h).2 w
    · exact List.forall_mem_nil _
  | .call call :: acts, h, w => by
    rw [List.forall_mem_cons] at h
    unfold stepsOf
    refine List.forall_mem_cons.2 ⟨h.1, ?_⟩
    split
    · exact single_stepsOf h.2 _
    · exact List.forall_mem_nil _

theorem single_steps : ∀ (calls : List Call) (w : Writer), ∀ s ∈ steps calls w, s.call.Single
  | [], _ => List.forall_mem_nil _
  | call :: calls, w => List.forall_mem_append.2 ⟨single_stepsOf (single_acts call) w, single_steps calls _⟩

/-! ### What holds along a session -/

theorem Leads.holds_along {P : List Step → Writer → Prop}
    (hstep : ∀ earlier s, s.call.Single → P earlier s.before → P (earlier ++ [s]) (s.call.after s.before))
    {steps : List Step} (h : Leads w steps w') : (∀ s ∈ steps, s.call.Single) → ∀ {done : List Step}, P done w →
      (∀ earlier s later, steps = earlier ++ s :: later → P (done ++ earlier) s.before) ∧ P (done ++ steps) w' := by
  induction h with
  | nil =>
    intro _ done hdone
    refine ⟨fun earlier s later hsplit => ?_, (List.append_nil done).symm ▸ hdone⟩
    exact absurd hsplit.symm (List.append_ne_nil_of_right_ne_nil _ (List.cons_ne_nil _ _))
  | @cons s steps w' _ ih =>
    intro hsingle done hdone
    rw [List.forall_mem_cons] at hsingle
    obtain ⟨halong, hfinal⟩ := ih hsingle.2 (hstep done s hsingle.1 hdone)
    rw [List.append_assoc] at hfinal
    refine ⟨fun earlier s' later hsplit => ?_, hfinal⟩
    cases earlier with
    | nil =>
      obtain ⟨rfl, -⟩ := List.cons.inj hsplit
      rwa [List.append_nil]
    | cons s₁ earlier =>
      obtain ⟨rfl, hrest⟩ := List.cons.inj hsplit
      have h := halong earlier s' later hrest
      rwa [List.append_assoc] at h

/-- What single calls preserve holds at every step of a session, and where it ends. -/
theorem holds_along {P : List Step → Writer → Prop} (hstart : P [] w)
    (hstep : ∀ earlier s, s.call.Single → P earlier s.before → P (earlier ++ [s]) (s.call.after s.before))
    (calls : List Call) :
    (∀ earlier s later, steps calls w = earlier ++ s :: later → P earlier s.before) ∧
    P (steps calls w) (final calls w) := by
  have h := (leads_steps calls w).holds_along hstep (single_steps calls w) hstart
  simpa only [List.nil_append] using h

/-! ### Calls that change neither structs nor the boolean that is waited for -/

/-- The call leaves the open structs and the boolean that is waited for. -/
def Calm (x : Writing α) : Prop := ∀ w, (left (x w)).parents = w.parents ∧ (left (x w)).pendingBool = w.pendingBool

namespace Calm

variable {x : Writing α} {f : α → Writing β}

theorem pure (a : α) : Calm (pure a) := fun _ => ⟨rfl, rfl⟩

theorem throw (e : Error) : Calm (throw e : Writing α) := fun _ => ⟨rfl, rfl⟩

theorem bind (hx : Calm x) (hf : ∀ a, Calm (f a)) : Calm (x >>= f) := by
  intro w
  have hx := hx w
  cases h : x w with
  | ok a t =>
    rw [h] at hx
    rw [bind_of_ok h]
    exact ⟨((hf a) t).1.trans hx.1, ((hf a) t).2.trans hx.2⟩
  | error e t =>
    rw [h] at hx
    rw [bind_of_error h]
    exact hx

theorem get {f : Writer → Writing α} (h : ∀ w, Calm (f w)) : Calm (get >>= f) := fun w => h w w

theorem put (bs : Bytes) : Calm (put bs) := fun _ => ⟨rfl, rfl⟩

theorem checkPending : Calm checkPending := .get fun w => by
  split
  · exact .throw _
  · exact .pure ()

theorem putSize (size : Nat) : Calm (putSize size) := by
  unfold Writer.putSize
  split
  · exact .throw _
  · exact .put _

theorem binary (bytes : Bytes) : Calm (binary bytes) := (putSize _).bind fun _ => .put bytes

theorem putFieldHeader (id : Int16) (code : Nat) : Calm (putFieldHeader id code) := fun w => by
  rw [putFieldHeader_eq id code rfl]
  exact ⟨rfl, rfl⟩

theorem messageBegin (header : MessageHeader) : Calm (messageBegin header) := by
  unfold Writer.messageBegin
  split
  · exact .throw (α := Unit) _
  · exact (put _).bind fun _ => (put _).bind fun _ => binary _

theorem collectionBegin (header : CollectionHeader) : Calm (collectionBegin header) := checkPending.bind fun _ => by
  split
  · exact .put _
  · exact (put _).bind fun _ => putSize _

theorem mapBegin (header : MapHeader) : Calm (mapBegin header) := checkPending.bind fun _ => by
  split
  · exact .put _
  · split
    · exact (putSize _).bind fun _ => .put _
    · exact .throw _

theorem fieldBegin {header : FieldHeader} (h : header.type ≠ .bool) : Calm (fieldBegin header) := by
  refine checkPending.bind fun _ => ?_
  split
  · exact .throw _
  · exact absurd ‹_› h
  · exact putFieldHeader _ _

end Calm

/-- A single call that neither opens or closes a struct nor has to do with a boolean. -/
def Call.Plain : Call → Prop
  | .structBegin | .structEnd | .bool _ | .value _ | .record _ => False
  | .fieldBegin header => header.type ≠ .bool
  | _ => True

theorem Call.Plain.calm {call : Call} (h : call.Plain) : Calm call.run := by
  cases call with
  | messageBegin header => exact .messageBegin header
  | fieldBegin header => exact .fieldBegin h
  | fieldStop => exact Calm.checkPending.bind fun _ => .put _
  | mapBegin header => exact .mapBegin header
  | listBegin header | setBegin header => exact .collectionBegin header
  | messageEnd | fieldEnd | mapEnd | listEnd | setEnd => exact .pure ()
  | byte _ | i16 _ | i32 _ | i64 _ | double _ => exact .put _
  | string _ | binary _ => exact .binary _
  | structBegin | structEnd | bool _ | value _ | record _ => exact h.elim

/-- Whatever a plain call gives, the open structs and the boolean that is waited for are as before. -/
theorem Call.Plain.after {call : Call} (h : call.Plain) (w : Writer) :
    (call.after w).parents = w.parents ∧ (call.after w).pendingBool = w.pendingBool := by
  rw [call.after_eq]
  exact h.calm w

/-! ### Structs and booleans -/

variable {id : Int16}

theorem structEnd_of_some (h : w.pendingBool = some id) : structEnd w = .error (.pendingBool id) w :=
  bind_of_error (checkPending_of_some h)

theorem structEnd_of_nil (hp : w.pendingBool = none) (h : w.parents = []) : structEnd w = .error .structUnderflow w := by
  refine (bind_of_ok (checkPending_eq hp)).trans ((bind_of_ok (x := get) (a := w) rfl).trans ?_)
  rw [h]
  rfl

theorem structEnd_of_cons {parents : List Int16} (hp : w.pendingBool = none) (h : w.parents = id :: parents) :
    structEnd w = .ok () { w with parents, lastId := id } := by
  refine (bind_of_ok (checkPending_eq hp)).trans ((bind_of_ok (x := get) (a := w) rfl).trans ?_)
  rw [h]
  rfl

theorem fieldBegin_of_some (header : FieldHeader) (h : w.pendingBool = some id) :
    fieldBegin header w = .error (.pendingBool id) w := bind_of_error (checkPending_of_some h)

/-- The header of a boolean field waits. -/
theorem fieldBegin_bool (id : Int16) (hp : w.pendingBool = none) :
    fieldBegin ⟨id, .bool⟩ w = .ok () { w with pendingBool := some id } := bind_of_ok (checkPending_eq hp)

/-- The header that waits is written, with the boolean in it. -/
theorem bool_of_some (b : Bool) (hp : w.pendingBool = some id) : bool b w = .ok ()
    (({ w with pendingBool := none } : Writer).addFields (fieldHead w.lastId id (WireType.boolCode b)) id) := by
  refine (bind_of_ok (x := get) (a := w) rfl).trans ?_
  rw [hp]
  exact putFieldHeader_eq id (WireType.boolCode b) rfl

/-- With no header that waits a boolean is a byte. -/
theorem bool_of_none (b : Bool) (hp : w.pendingBool = none) :
    bool b w = .ok () (w.add [nibbles 0 (WireType.boolCode b)]) := by
  refine (bind_of_ok (x := get) (a := w) rfl).trans ?_
  rw [hp]
  rfl

end CompactWire.Writer

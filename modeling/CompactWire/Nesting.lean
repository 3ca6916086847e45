/-!
# CompactWire.Nesting — the history of the structs of a session

Readers and writers open and close structs, also in the midst of calls for whole values.  A chronicle notes every
opening and every closing, the latest first.  Both are noted with the number of structs around the one in question and
with the last field id there: the id that an opening leaves behind, and the id that a closing goes on with.

* `Chronicle.stack` replays a chronicle: the ids that were left behind and not yet gone on with, the latest first.
* `Chronicle.idAt` looks up the latest opening at a depth.
* `Chronicle.Nests` says that depths go up and down by one and that every closing goes on with the id that the latest
  opening at its depth has left behind.
-/

namespace CompactWire

/-- An opening or a closing of a struct. -/
inductive StructEvent
  /-- A struct is opened inside `depth` others; `id` is the last field id around it. -/
  | opened (depth : Nat) (id : Int16)
  /-- A struct inside `depth` others is closed; `id` is the last field id that is gone on with. -/
  | closed (depth : Nat) (id : Int16)
deriving DecidableEq

/-- What happened to the structs of a session, the latest first. -/
abbrev Chronicle := List StructEvent

namespace Chronicle

/-- How many structs were opened. -/
def openings : Chronicle → Nat
  | [] => 0
  | .opened _ _ :: earlier => openings earlier + 1
  | .closed _ _ :: earlier => openings earlier

/-- How many structs were closed. -/
def closings : Chronicle → Nat
  | [] => 0
  | .opened _ _ :: earlier => closings earlier
  | .closed _ _ :: earlier => closings earlier + 1

/-- The ids around the structs that are open, innermost first. -/
def stack : Chronicle → List Int16
  | [] => []
  | .opened _ id :: earlier => id :: stack earlier
  | .closed _ _ :: earlier => (stack earlier).tail

/-- The last field id when the number of open structs last went up from `depth`. -/
def idAt (depth : Nat) : Chronicle → Option Int16
  | [] => none
  | .opened d id :: earlier => if d = depth then some id else idAt depth earlier
  | .closed _ _ :: earlier => idAt depth earlier

/-- `Nests c depth`: the chronicle leads from no open struct to `depth` of them, and its closings bring the ids back. -/
inductive Nests : Chronicle → Nat → Prop
  | start : Nests [] 0
  | opened {c : Chronicle} {depth : Nat} (h : Nests c depth) (id : Int16) : Nests (.opened depth id :: c) (depth + 1)
  | closed {c : Chronicle} {depth : Nat} {id : Int16} (h : Nests c (depth + 1)) (left : c.idAt depth = some id) :
    Nests (.closed depth id :: c) depth

variable {c : Chronicle} {depth : Nat}

theorem Nests.balance (h : Nests c depth) : c.closings + depth = c.openings := by
  induction h with
  | start => rfl
  | opened _ _ ih | closed _ _ ih =>
    simp only [openings, closings]
    omega

theorem Nests.length_stack (h : Nests c depth) : c.stack.length = depth := by
  induction h with
  | start => rfl
  | opened _ _ ih => exact congrArg (· + 1) ih
  | closed _ _ ih => rw [stack, List.length_tail, ih, Nat.add_sub_cancel]

/-- An id on the stack is the one that was left behind when a struct was last opened at its depth. -/
theorem Nests.idAt_stack (h : Nests c depth) {before around : List Int16} {id : Int16}
    (hstack : c.stack = before ++ id :: around) : c.idAt around.length = some id := by
  induction h generalizing before with
  | start => exact absurd hstack.symm (List.append_ne_nil_of_right_ne_nil _ (List.cons_ne_nil _ _))
  | @opened c depth h left ih =>
    have hlength := h.length_stack
    cases before with
    | nil =>
      obtain ⟨rfl, rfl⟩ := List.cons.inj hstack
      rw [idAt, if_pos hlength.symm]
    | cons _ before =>
      have htail : c.stack = before ++ id :: around := (List.cons.inj hstack).2
      rw [htail, List.length_append, List.length_cons] at hlength
      rw [idAt, if_neg (by omega)]
      exact ih htail
  | @closed c depth id' h _ ih =>
    cases hc : c.stack with
    | nil =>
      rw [stack, hc] at hstack
      exact absurd hstack.symm (List.append_ne_nil_of_right_ne_nil _ (List.cons_ne_nil _ _))
    | cons inner rest =>
      rw [stack, hc] at hstack
      have hinner : c.stack = (inner :: before) ++ id :: around := by
        rw [hc, List.cons_append]
        exact congrArg (inner :: ·) hstack
      exact ih hinner

/-! ### The structs that are open -/

/-- `Tells c parents`: the chronicle is that of a session in which `parents` are the ids around the open structs. -/
def Tells (c : Chronicle) (parents : List Int16) : Prop := Nests c parents.length ∧ c.stack = parents

theorem tells_nil : Tells [] [] := ⟨.start, rfl⟩

variable {parents : List Int16} {id : Int16}

theorem Tells.opened (h : Tells c parents) (id : Int16) :
    Tells (.opened parents.length id :: c) (id :: parents) := ⟨h.1.opened id, congrArg (id :: ·) h.2⟩

/-- The innermost struct is closed, and the id around it is gone on with. -/
theorem Tells.closed (h : Tells c (id :: parents)) : Tells (.closed parents.length id :: c) parents :=
  ⟨h.1.closed (h.1.idAt_stack (show c.stack = [] ++ id :: parents from h.2)), congrArg List.tail h.2⟩

end Chronicle

end CompactWire

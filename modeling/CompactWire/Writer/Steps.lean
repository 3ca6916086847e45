import CompactWire.Nesting
import CompactWire.Writer.Call

/-!
# CompactWire.Writer.Steps — a writing session taken apart

A value is written by calls for its headers, its numbers and its ends, with checks in between that the elements have
the types declared for them.  `Call.acts` lists these in order, and making them one after the other up to the first that
fails is the same as making the call (`perform_acts`).

So a whole session is a sequence of single calls, `steps`, each with the writer that it is made on; what a failed call
for a value would still have written is not among them.
-/

namespace CompactWire.Writer

/-- The writer that a call leaves. -/
def Call.after (call : Call) (w : Writer) : Writer :=
  match call.run w with
  | .ok _ w | .error _ w => w

/-- Part of a call for a value. -/
inductive Act
  | call (call : Call)
  /-- An element has to have the declared type. -/
  | check (declared : Option WireType) (element : Value)

/-- Does what an act says. -/
def Act.run : Act → Writing Unit
  | .call c => c.run
  | .check declared element => checkType declared element

/-- Does what the acts say, up to the first that fails. -/
def perform : List Act → Writing Unit
  | [] => return ()
  | act :: acts => do
    act.run
    perform acts

mutual

/-- What is done to write a value. -/
def valueActs : Value → List Act
  | .bool b => [.call (.bool b)]
  | .byte n => [.call (.byte n)]
  | .i16 n => [.call (.i16 n)]
  | .i32 n => [.call (.i32 n)]
  | .i64 n => [.call (.i64 n)]
  | .double bits => [.call (.double bits)]
  | .binary bytes => [.call (.binary bytes)]
  | .list element elements => .call (.listBegin ⟨element, elements.length⟩) :: itemActs element elements
  | .set element elements => .call (.setBegin ⟨element, elements.length⟩) :: itemActs element elements
  | .map key value pairs => .call (.mapBegin ⟨key, value, pairs.length⟩) :: entryActs key value pairs
  | .struct members => .call .structBegin :: (fieldActs members ++ [.call .structEnd])

/-- What is done to write the elements of a list or set. -/
def itemActs (element : WireType) : List Value → List Act
  | [] => []
  | v :: vs => .check (some element) v :: (valueActs v ++ itemActs element vs)

/-- What is done to write the entries of a map. -/
def entryActs (keyType valueType : Option WireType) : List (Value × Value) → List Act
  | [] => []
  | (k, v) :: rest =>
    .check keyType k :: .check valueType v :: (valueActs k ++ (valueActs v ++ entryActs keyType valueType rest))

/-- What is done to write the fields of a struct. -/
def fieldActs : List (Int16 × Value) → List Act
  | [] => [.call .fieldStop]
  | (id, v) :: rest => .call (.fieldBegin ⟨id, v.type⟩) :: (valueActs v ++ fieldActs rest)

end

/-- What is done in a call. -/
def Call.acts : Call → List Act
  | .value v => valueActs v
  | .record r => valueActs (.struct r)
  | call => [.call call]

theorem perform_append : ∀ (before after : List Act), perform (before ++ after) = do perform before; perform after
  | [], _ => rfl
  | act :: before, after => by
    rw [List.cons_append, perform, perform_append before after, perform, bind_assoc]

theorem perform_call (call : Call) : perform [.call call] = call.run := bind_pure _

mutual

theorem perform_valueActs : ∀ v, perform (valueActs v) = value v
  | .bool _ | .byte _ | .i16 _ | .i32 _ | .i64 _ | .double _ | .binary _ => by
    unfold valueActs value
    exact perform_call _
  | .list element elements | .set element elements => by
    rw [valueActs, value, perform, perform_itemActs]
    rfl
  | .map key val pairs => by
    rw [valueActs, value, perform, perform_entryActs]
    rfl
  | .struct members => by
    rw [valueActs, value, perform, perform_append, perform_fieldActs, perform_call]
    rfl

theorem perform_itemActs (element : WireType) : ∀ vs, perform (itemActs element vs) = items element vs
  | [] => rfl
  | v :: vs => by
    rw [itemActs, items, perform, perform_append, perform_valueActs, perform_itemActs]
    rfl

theorem perform_entryActs (key val : Option WireType) : ∀ es, perform (entryActs key val es) = entries key val es
  | [] => rfl
  | (k, v) :: rest => by
    rw [entryActs, entries, perform, perform, perform_append, perform_append, perform_valueActs, perform_valueActs,
      perform_entryActs]
    rfl

theorem perform_fieldActs : ∀ fs, perform (fieldActs fs) = fields fs
  | [] => by
    rw [fieldActs, fields]
    exact perform_call _
  | (id, v) :: rest => by
    rw [fieldActs, fields, perform, perform_append, perform_valueActs, perform_fieldActs]
    rfl

end

/-- A call is what is done in it. -/
theorem perform_acts (call : Call) : perform call.acts = call.run := by
  cases call with
  | value v | record v => exact perform_valueActs _
  | _ => exact perform_call _

/-! ### Steps -/

/-- A single call, and the writer that it is made on. -/
structure Step where
  before : Writer
  call : Call

namespace Step

/-- What the call gives. -/
def outcome (s : Step) : EStateM.Result Error Writer Unit := s.call.run s.before

/-- Notes a struct that the call opens or closes. -/
def note (c : Chronicle) (s : Step) : Chronicle :=
  match s.call, s.outcome with
  | .structBegin, .ok _ _ => .opened s.before.depth s.before.lastId :: c
  | .structEnd, .ok _ w => .closed w.depth w.lastId :: c
  | _, _ => c

end Step

/-- What happens to structs in a sequence of steps. -/
def chronicle (steps : List Step) : Chronicle := steps.foldl Step.note []

/-- The single calls of acts, up to the first that fails. -/
def stepsOf : List Act → Writer → List Step
  | [], _ => []
  | .check declared element :: acts, w => if declared = some element.type then stepsOf acts w else []
  | .call call :: acts, w =>
    ⟨w, call⟩ ::
      match call.run w with
      | .ok _ w => stepsOf acts w
      | .error _ _ => []

/-- The single calls of a session. -/
def steps : List Call → Writer → List Step
  | [], _ => []
  | call :: calls, w => stepsOf call.acts w ++ steps calls (call.after w)

/-- The writer that a session leaves. -/
def final (calls : List Call) (w : Writer) : Writer := calls.foldl (fun w call => call.after w) w

end CompactWire.Writer

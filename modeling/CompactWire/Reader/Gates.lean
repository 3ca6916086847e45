import CompactWire.Input.Noted
import CompactWire.Nesting
import CompactWire.Reader.Call

/-!
# CompactWire.Reader.Gates — reading with the ends of structs held open

Structs are opened and closed by calls of their own, and in the midst of calls that read or pass over whole values.
Here all of them go through two gates, one to open a struct and one to close it, so that what happens to structs can
be watched in calls of any form.  `Gates.plain` leads to the calls themselves.  `Gates.noted` does too, and notes every
struct that is opened or closed.
-/

namespace CompactWire.Reader

/-- How structs are opened and closed. -/
structure Gates (ι : Type) where
  enter : Reading ι Unit
  leave : Reading ι Unit

namespace Gates

variable {ι span : Type}

/-- Structs are opened and closed, and nothing else. -/
def plain : Gates ι := ⟨structBegin, structEnd⟩

/-- Structs are opened and closed, and every struct that was is noted. -/
def noted : Gates (Noted Chronicle ι) where
  enter := do
    let r ← get
    structBegin
    onInput (Noted.note (.opened r.depth r.lastId :: ·))
  leave := do
    structEnd
    let r ← get
    onInput (Noted.note (.closed r.depth r.lastId :: ·))

variable [Input ι span] (g : Gates ι)

/-- A struct, with `value` for the values of its fields. -/
def structOf (value : WireType → Reading ι Value) (rounds : Nat) : Reading ι Record := do
  g.enter
  let record ← fields value rounds
  g.leave
  return record

/-- A value of the given type, where `levels` more levels may be opened. -/
def valueWithin (rounds : Nat) : (levels : Nat) → WireType → Reading ι Value
  | levels + 1, .list => collectionOf .list (valueWithin rounds levels)
  | levels + 1, .set => collectionOf .set (valueWithin rounds levels)
  | levels + 1, .map => mapOf (valueWithin rounds levels)
  | levels + 1, .struct => return .struct (← g.structOf (valueWithin rounds levels) rounds)
  | levels, type => Reader.valueWithin rounds levels type

/-- Passes over a value of the given type, where `levels` more levels may be opened. -/
def skipWithin (rounds : Nat) : (levels : Nat) → WireType → Reading ι Unit
  | levels + 1, .list | levels + 1, .set => do
    let header ← collectionBegin
    repeated (skipWithin rounds levels header.element) header.size
  | levels + 1, .map => do
    let header ← mapBegin
    match header.key, header.value with
    | some key, some value => repeated (do skipWithin rounds levels key; skipWithin rounds levels value) header.size
    | _, _ => return ()
  | levels + 1, .struct => do
    g.enter
    skipFields (skipWithin rounds levels) rounds
    g.leave
  | levels, type => Reader.skipWithin rounds levels type

/-- A value of the given type. -/
def value (type : WireType) : Reading ι Value := do
  let r ← get
  g.valueWithin r.rounds (r.limits.maxDepth + 1) type

/-- A record: the fields of a struct, which lie one level deep. -/
def record : Reading ι Record := do
  let r ← get
  g.structOf (g.valueWithin r.rounds r.limits.maxDepth) r.rounds

/-- Passes over a value of the given type. -/
def skip (type : WireType) : Reading ι Unit := do
  let r ← get
  g.skipWithin r.rounds (r.limits.maxDepth + 1) type

/-- Makes a call. -/
def run : Call → Reading ι Reply
  | .structBegin => do g.enter; return .done
  | .structEnd => do g.leave; return .done
  | .skip type => do g.skip type; return .done
  | .value type => return .value (← g.value type)
  | .record => return .record (← g.record)
  | call => call.run

/-- Makes the calls one after the other and lists what each gives, with the reader it leaves. -/
def session : List Call → Reader ι → List (Except Error Reply × Reader ι)
  | [], _ => []
  | call :: calls, r =>
    match g.run call r with
    | .ok reply r => (.ok reply, r) :: session calls r
    | .error e r => (.error e, r) :: session calls r

/-! ### The calls themselves -/

theorem valueWithin_plain (rounds : Nat) :
    ∀ levels type, plain.valueWithin rounds levels type = (Reader.valueWithin rounds levels type : Reading ι Value)
  | 0, type => by cases type <;> rfl
  | levels + 1, type => by
    have ih := funext (valueWithin_plain rounds levels)
    cases type <;> first | rfl | (simp only [valueWithin, ih]; rfl)

theorem skipWithin_plain (rounds : Nat) :
    ∀ levels type, plain.skipWithin rounds levels type = (Reader.skipWithin rounds levels type : Reading ι Unit)
  | 0, type => by cases type <;> rfl
  | levels + 1, type => by
    have ih := funext (skipWithin_plain rounds levels)
    cases type <;> first | rfl | (simp only [skipWithin, ih]; rfl)

theorem run_plain (call : Call) : plain.run call = (call.run : Reading ι Reply) := by
  have hvalue := fun rounds levels => funext (valueWithin_plain (ι := ι) rounds levels)
  have hskip := fun rounds levels => funext (skipWithin_plain (ι := ι) rounds levels)
  cases call with
  | skip type =>
    simp only [run, skip, hskip]
    rfl
  | value type =>
    simp only [run, value, hvalue]
    rfl
  | record =>
    simp only [run, record, hvalue]
    rfl
  | _ => rfl

theorem session_plain : ∀ (calls : List Call) (r : Reader ι), plain.session calls r = Reader.session calls r
  | [], _ => rfl
  | call :: calls, r => by
    unfold session Reader.session
    rw [run_plain]
    cases call.run r with
    | ok reply r => exact congrArg _ (session_plain calls r)
    | error e r => exact congrArg _ (session_plain calls r)

end Gates

end CompactWire.Reader

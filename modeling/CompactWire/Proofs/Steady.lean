import CompactWire.Proofs.Coupling
import CompactWire.Reader.Call

/-!
# CompactWire.Proofs.Steady — reading a byte string breaks nothing off

A reader breaks a call off only if its input does, and a byte string never does: beside itself (`Bytes.steady`) it has
none but errors that are reported.  So where a reading of another input goes along with one of a byte string, and is
broken off, it is the input that broke it off.
-/

namespace CompactWire

/-- The error is reported; it breaks nothing off. -/
def Error.Reported (e : Error) : Prop := ∀ reason, e ≠ .aborted reason

/-- A byte string beside itself, with errors that are reported. -/
def Bytes.steady (limits : Limits) : Coupling limits Bytes Bytes where
  inputs _ i j := i = j
  failed := Error.Reported
  failed_own h := h.2
  remaining := congrArg Input.remaining
  readByte := by
    rintro parents i _ rfl
    show BothEnd _ _ _ (Bytes.readByte i) (Bytes.readByte i)
    cases i with
    | nil => exact .error ⟨by simp [Error.Reported], rfl⟩
    | cons b bs => exact .ok ⟨rfl, rfl⟩
  readSpan := by
    rintro parents i _ length - rfl
    show BothEnd _ _ _ (Bytes.readSpan length i) (Bytes.readSpan length i)
    unfold Bytes.readSpan
    split
    · exact .error ⟨by simp [Error.Reported], rfl⟩
    · exact .ok ⟨rfl, rfl, fun _ => by simp [Error.Reported], rfl⟩

namespace Reader

variable {r r' : Reader Bytes} {e : Error}

/-- Every call on a byte string reports its error. -/
theorem reported_of_run {call : Call} (h : call.run r = .error e r') : e.Reported := by
  let C := Bytes.steady r.limits
  obtain ⟨henter, hleave⟩ := C.same_plain fun h => h
  have hends := C.same_run henter hleave call 0 r r ⟨rfl, rfl, rfl, rfl, rfl, rfl⟩
  rw [Gates.run_plain, h] at hends
  cases hends with
  | error h => exact h.1
  | gaveUp h => exact h.elim

theorem reported_of_messageBegin (h : messageBegin r = .error e r') : e.Reported := by
  have hrun : Call.run .messageBegin r = .error e r' := Outcome.bind_of_error h
  exact reported_of_run hrun

theorem reported_of_record (h : record r = .error e r') : e.Reported := by
  have hrun : Call.run .record r = .error e r' := Outcome.bind_of_error h
  exact reported_of_run hrun

end Reader

end CompactWire

import CompactWire.Input.Asked
import CompactWire.Proofs.Coupling

/-!
# CompactWire.Proofs.Asked — what readers ask an input for

Noting the requests of spans changes nothing else: where an input takes the place of another one, it does so with its
requests noted, too (`Coupling.asked`).  What is said of the requests need only hold of those that readers make: of
lengths that the limits allow, and of spans that come with another length just if that may be complained of.
-/

namespace CompactWire.Coupling

variable {limits : Limits} {κ ι t s : Type} [Input κ t] [Input ι s]

/-- An input beside itself. -/
def same (limits : Limits) (ι : Type) {s : Type} [Input ι s] : Coupling limits ι ι where
  inputs _ i j := i = j
  failed _ := True
  failed_own _ := trivial
  remaining := congrArg Input.remaining
  readByte := by
    rintro parents i _ rfl
    cases (Input.readByte i : EStateM.Result Error ι UInt8) with
    | ok b i => exact .ok ⟨rfl, rfl⟩
    | error e i => exact .error ⟨trivial, rfl⟩
  readSpan := by
    rintro parents i _ length - rfl
    cases (Input.readSpan length i : EStateM.Result Error ι s) with
    | ok a i => exact .ok ⟨rfl, rfl, fun _ => trivial, rfl⟩
    | error e i => exact .error ⟨trivial, rfl⟩

/-- A reader asks for what the limits allow, and takes what comes with the length that it asked for. -/
def Asks (C : Coupling limits κ ι) (P : Request → Prop) : Prop := ∀ length ≤ max 8 limits.maxString,
  P ⟨length, none⟩ ∧ ∀ n, (n ≠ length → C.failed (.assembledLength length n)) → P ⟨length, some n⟩

/-- On the first side the requests are noted. -/
def asked (C : Coupling limits κ ι) {P : Request → Prop} (hP : C.Asks P) : Coupling limits (Asked κ) ι where
  inputs parents a j := C.inputs parents a.input j ∧ ∀ request ∈ a.requests, P request
  failed := C.failed
  failed_own := C.failed_own
  remaining h := C.remaining h.1
  readByte := by
    rintro parents a j ⟨hinputs, hrequests⟩
    have hbyte := C.readByte hinputs
    show BothEnd _ _ _ (Asked.readByte a) _
    unfold Asked.readByte
    generalize (Input.readByte a.input : EStateM.Result Error κ UInt8) = o at hbyte ⊢
    generalize (Input.readByte j : EStateM.Result Error ι UInt8) = o' at hbyte ⊢
    cases hbyte with
    | ok h => exact .ok ⟨h.1, h.2, hrequests⟩
    | error h => exact .error ⟨h.1, h.2, hrequests⟩
    | gaveUp h => exact h.elim
  readSpan := by
    rintro parents a j length hlength ⟨hinputs, hrequests⟩
    obtain ⟨hnone, hsome⟩ := hP length hlength
    have hspan := C.readSpan hlength hinputs
    show BothEnd _ _ _ (Asked.readSpan length a) _
    unfold Asked.readSpan
    generalize (Input.readSpan length a.input : EStateM.Result Error κ t) = o at hspan ⊢
    generalize (Input.readSpan length j : EStateM.Result Error ι s) = o' at hspan ⊢
    cases hspan with
    | ok h =>
      obtain ⟨hbytes, hborrowed, hcomplain, hinputs'⟩ := h
      refine .ok ⟨hbytes, hborrowed, hcomplain, hinputs', List.forall_mem_cons.2 ⟨hsome _ ?_, hrequests⟩⟩
      rwa [hbytes]
    | error h => exact .error ⟨h.1, h.2, List.forall_mem_cons.2 ⟨hnone, hrequests⟩⟩
    | gaveUp h => exact h.elim

end CompactWire.Coupling

import CompactWire.Proofs.Gives
import CompactWire.Proofs.Skipping
import CompactWire.Proofs.Unbroken

/-!
# CompactWire.Proofs.Requests — a header cannot make a reader ask for much

A length on the wire may be any number of 32 bits.  Whatever it is, no reader asks its input for a longer span than the
limit on strings allows, or for more than the eight bytes of a double; a greater length is refused before any span is
asked for, wherever it stands; and no binary that is read is longer than the limit.  So a transport over bytes in memory
or over a file asks its pool for no more than that, or for chunks of the size that was chosen (`Limits.Caps`).

That no span is asked for is said of the numbers and bytes in front of it (`Asked.Quiet`).
-/

namespace CompactWire

open Outcome

/-! ### Spans that are not too long -/

/-- No span is longer than was asked for.  It is what an input has to keep to, whoever reads from it. -/
def Input.AtMost (ι : Type) {span : Type} [Input ι span] : Prop :=
  ∀ (length : Nat) (i : ι) (a : span) (i' : ι), Input.readSpan length i = .ok a i' → (Input.bytes ι a).length ≤ length

theorem Input.Exact.atMost {ι span : Type} [Input ι span] (h : Input.Exact ι) : Input.AtMost ι :=
  fun length i a i' hread => Nat.le_of_eq (h length i a i' hread)

namespace Asked

variable {ι span α β : Type}

/-- The step asks for no span. -/
def Quiet (x : EStateM Error (Asked ι) α) : Prop := ∀ a, (left (x a)).requests = a.requests

theorem Quiet.bind {x : EStateM Error (Asked ι) α} {f : α → EStateM Error (Asked ι) β} (hx : Quiet x)
    (hf : ∀ a, Quiet (f a)) : Quiet (x >>= f) := by
  intro a
  have hfirst := hx a
  cases h : x a with
  | ok b t =>
    rw [h] at hfirst
    rw [bind_of_ok h]
    exact (hf b t).trans hfirst
  | error e t =>
    rw [h] at hfirst
    rw [bind_of_error h]
    exact hfirst

variable [Input ι span]

theorem quiet_readByte : Quiet (Input.readByte : EStateM Error (Asked ι) UInt8) := by
  intro a
  show (left (Asked.readByte a)).requests = a.requests
  unfold Asked.readByte
  cases (Input.readByte a.input : EStateM.Result Error ι UInt8) <;> rfl

theorem quiet_readGroups (top : Nat) : ∀ groups, Quiet (Varint.readGroups top groups : EStateM Error (Asked ι) Nat)
  | 0 => quiet_readByte.bind fun byte => by
    split <;> exact fun _ => rfl
  | groups + 1 => quiet_readByte.bind fun byte => by
    split
    · exact fun _ => rfl
    · exact (quiet_readGroups top groups).bind fun _ _ => rfl

theorem Quiet.onInput {x : EStateM Error (Asked ι) α} (hx : Quiet x) {r r' : Reader (Asked ι)} {a : α}
    (h : Reader.onInput x r = .ok a r') : r'.input.requests = r.input.requests := by
  have hrequests := hx r.input
  unfold Reader.onInput at h
  split at h <;> rename_i heq <;> cases h
  rw [heq] at hrequests
  exact hrequests

end Asked

/-! ### Lengths that are too great -/

namespace Reader

variable {ι span : Type} [Input ι span] {n : Nat} {r r' : Reader ι}

/-- A length stands next, and reading it leaves the other reader. -/
def Declares (n : Nat) (r r' : Reader ι) : Prop := onInput (Varint.read .w32) r = .ok n r'

/-- A message header stands next, and reading it up to the length of its name leaves the other reader. -/
inductive Opens (r r' : Reader ι) : Prop
  | intro {b : UInt8} {seqId : Nat} {r₁ r₂ : Reader ι} (protocol : readByte r = .ok MessageHeader.protocolId r₁)
    (version : readByte r₁ = .ok b r₂) (hversion : b.toNat % 32 = MessageHeader.version)
    (seqId : onInput (Varint.read .w32) r₂ = .ok seqId r')

theorem Opens.limits_eq (h : Opens r r') : r'.limits = r.limits := by
  obtain ⟨protocol, version, -, seqId⟩ := h
  exact ((Gives.onInput _ _ _ _ seqId).1.trans (Gives.onInput _ _ _ _ version).1).trans (Gives.onInput _ _ _ _ protocol).1

/-- Behind the length everything ends. -/
theorem readLength_of_declares (h : Declares n r r') (hlt : r.limits.maxString < n) :
    readLength r = .error (.lengthExceeded n r.limits.maxString) r' := by
  have hlimits : r'.limits = r.limits := (Gives.onInput _ _ _ _ h).1
  refine (bind_of_ok h).trans ((bind_of_ok (x := get) rfl).trans ?_)
  dsimp only
  rw [hlimits, if_pos hlt]
  rfl

/-- The calls that read or pass over a string or a binary and begin with its length. -/
def measured : List Call := [.string, .binary, .value .binary, .skip .binary]

theorem valueWithin_of_declares (h : Declares n r r') (hlt : r.limits.maxString < n) (rounds levels : Nat) :
    valueWithin rounds (levels + 1) .binary r = .error (.lengthExceeded n r.limits.maxString) r' :=
  bind_of_error (bind_of_error (readLength_of_declares h hlt))

theorem skipWithin_of_declares (h : Declares n r r') (hlt : r.limits.maxString < n) (rounds levels : Nat) :
    skipWithin rounds (levels + 1) .binary r = .error (.lengthExceeded n r.limits.maxString) r' :=
  bind_of_error (bind_of_error (readLength_of_declares h hlt))

theorem run_of_declares (h : Declares n r r') (hlt : r.limits.maxString < n) {call : Call} (hcall : call ∈ measured) :
    call.run r = .error (.lengthExceeded n r.limits.maxString) r' := by
  have hlength := readLength_of_declares h hlt
  have hvalue : value .binary r = .error (.lengthExceeded n r.limits.maxString) r' :=
    valueWithin_of_declares h hlt r.rounds r.limits.maxDepth
  have hskip : skip .binary r = .error (.lengthExceeded n r.limits.maxString) r' :=
    skipWithin_of_declares h hlt r.rounds r.limits.maxDepth
  fin_cases hcall
  · exact bind_of_error (bind_of_error hlength)
  · exact bind_of_error (bind_of_error hlength)
  · exact bind_of_error hvalue
  · exact bind_of_error hskip

theorem messageBegin_of_opens {r₀ : Reader ι} (hopens : Opens r₀ r) (h : Declares n r r') (hlt : r.limits.maxString < n) :
    messageBegin r₀ = .error (.lengthExceeded n r.limits.maxString) r' := by
  obtain ⟨protocol, version, hversion, seqId⟩ := hopens
  refine (bind_of_ok protocol).trans ?_
  rw [if_neg (by simp)]
  refine (bind_of_ok version).trans ?_
  dsimp only
  rw [if_neg (not_not.2 hversion)]
  exact (bind_of_ok seqId).trans (bind_of_error (bind_of_error (readLength_of_declares h hlt)))

/-- Up to a length no span is asked for. -/
theorem Declares.requests {r r' : Reader (Asked ι)} (h : Declares n r r') : r'.input.requests = r.input.requests :=
  (Asked.quiet_readGroups _ _).onInput h

theorem Opens.requests {r r' : Reader (Asked ι)} (h : Opens r r') : r'.input.requests = r.input.requests := by
  obtain ⟨protocol, version, -, seqId⟩ := h
  exact ((Declares.requests seqId).trans (Asked.quiet_readByte.onInput version)).trans
    (Asked.quiet_readByte.onInput protocol)

/-! ### Binaries -/

/-- No binary is longer than the limit. -/
def BytesFit (l : Limits) (p : Value) : Prop := p.byteLength ≤ l.maxString

theorem gives_binary (h : Input.AtMost ι) :
    Gives (ι := ι) (fun l s => (Input.bytes ι s).length ≤ l.maxString) binary := by
  refine gives_readLength.bind fun length => ?_
  intro r a r' hread
  refine ⟨(Gives.onInput _ r a r' hread).1, fun hlength => ?_⟩
  unfold onInput at hread
  split at hread <;> rename_i heq <;> cases hread
  exact Nat.le_trans (h _ _ _ _ heq) hlength

theorem gives_bytesFit_binary (h : Input.AtMost ι) :
    Gives (ι := ι) (fun l bytes => BytesFit l (.binary bytes)) binaryBytes := by
  refine gives_readLength.bind fun length => ?_
  intro r bytes r' hread
  refine ⟨(Gives.onInput _ r bytes r' hread).1, fun hlength => ?_⟩
  unfold onInput at hread
  split at hread <;> rename_i heq <;> cases hread
  obtain ⟨s, t, hspan, hrest⟩ := bind_eq_ok.1 heq
  obtain ⟨_, _, -, hpure⟩ := bind_eq_ok.1 hrest
  obtain ⟨rfl, -⟩ := pure_eq_ok.1 hpure
  exact Nat.le_trans (h _ _ _ _ hspan) hlength

theorem bears_bytesFit : Bears BytesFit := fun _ _ hbytes _ => Nat.le_trans (Nat.le_of_eq hbytes) (Nat.zero_le _)

/-! ### Sessions -/

/-- The reader without the requests. -/
def unasked (r : Reader (Asked ι)) : Reader ι := ⟨r.input.input, r.limits, r.parents, r.lastId, r.pendingBool⟩

/-- No more is asked for than the limit on strings, or the bytes of a double. -/
theorem asks_atMost (limits : Limits) (ι : Type) {span : Type} [Input ι span] :
    (Coupling.same limits ι).Asks fun request => request.length ≤ max 8 limits.maxString :=
  fun _ hlength => ⟨hlength, fun _ _ => hlength⟩

theorem session_asked (limits : Limits) (i : ι) (calls : List Call) :
    session calls { input := i, limits } =
      (session calls { input := Asked.mk i [], limits }).map (fun step => (step.1, step.2.unasked)) ∧
    ∀ step ∈ session calls { input := Asked.mk i [], limits }, ∀ request ∈ step.2.input.requests,
      request.length ≤ max 8 limits.maxString := by
  let C := (Coupling.same limits ι).asked (asks_atMost limits ι)
  have hcoupled : C.Coupled { input := Asked.mk i [], limits } { input := i, limits } :=
    ⟨⟨rfl, fun _ hr => (nomatch hr)⟩, rfl, rfl, rfl, rfl, rfl⟩
  obtain ⟨henter, hleave⟩ := C.same_plain fun h => h
  have hview : ∀ {r : Reader (Asked ι)} {r' : Reader ι}, C.Coupled r r' → r.unasked = r' := fun {r r'} h => by
    have hlimits : r.limits = r'.limits := h.left_limits.trans h.right_limits.symm
    rw [unasked, h.input.1, hlimits, h.parents, h.lastId, h.pendingBool]
  have hmap := C.session_eq_map henter hleave hview calls hcoupled
  rw [Gates.session_plain] at hmap
  refine ⟨hmap, fun step hstep => ?_⟩
  rw [← Gates.session_plain] at hstep
  obtain ⟨⟨r', hr'⟩, -⟩ := C.coupled_of_mem henter hleave hcoupled hstep
  exact hr'.input.2

end Reader

/-! ### Transports -/

/-- Over a source with these steps readers with the given limits let a transport ask its pool for no more than the
limit on strings, the bytes of a double, or a chunk, whatever other users do with the pool. -/
def SourceSteps.Sparing {σ : Type} [Source σ] (limits : Limits) (steps : SourceSteps σ) : Prop :=
  ∀ (c : Pool.Config) (source : σ) (pool : Pool) (chunkSize : PosSize) (calls : List (Pool × Reader.Call)),
    pool.Intact c → (∀ call ∈ calls, call.1.Intact c) →
    let visits := calls.map (Prod.map id Visit.call)
    let transport : Visited (Transport σ) TransportSpan := { reader := { input := { source, pool, chunkSize }, limits } }
    let machine : Visited (Asked (Machine σ)) MachineSpan :=
      { reader := { input := { input := .opened steps source pool chunkSize }, limits } }
    let run := machine.steps (Asked.change ∘ Machine.withPool) visits
    run.1 = (transport.steps Transport.withPool visits).1 ∧
      ∀ n ∈ run.2.reader.input.input.account.requests, n ≤ max (max 8 limits.maxString) chunkSize.val

theorem SourceSteps.sparing_of_faithful {σ : Type} [Source σ] {steps : SourceSteps σ} {limits : Limits}
    (h : ∀ (c : Pool.Config) (max : Nat) (P : Nat → Prop), (∀ n ≤ max, P n) → steps.Faithful c max P) :
    steps.Sparing limits := by
  intro c source pool chunkSize calls hpool hpools
  let P (n : Nat) : Prop := n ≤ max (max 8 limits.maxString) chunkSize.val
  have hlimits : Machine.Suits P limits := fun n hn => Nat.le_trans hn (Nat.le_max_left _ _)
  have hchunk : ∀ n ≤ chunkSize.val, P n := fun n hn => Nat.le_trans hn (Nat.le_max_right _ _)
  have hvisits : ∀ visit ∈ calls.map (Prod.map id Visit.call), visit.1.Intact c ∧ Machine.Keeps P visit.2 := by
    intro visit hvisit
    obtain ⟨call, hcall, rfl⟩ := List.mem_map.1 hvisit
    exact ⟨hpools call hcall, trivial⟩
  have hbeside := Machine.Beside.opened (h c chunkSize.val P hchunk) source hpool (fun _ h => h) hlimits
  obtain ⟨hanswers, -, hafter⟩ := hbeside.steps _ hvisits
  exact ⟨hanswers, hafter.input.1.keeps.requests⟩

/-! ### What the limit on strings binds -/

/-- With these limits no header makes a reader ask for much. -/
structure Limits.Caps (limits : Limits) : Prop where
  /-- In a session no span is asked for that is longer than the limit on strings or a double.  Noting the spans does not
  change the session. -/
  asked {ι span : Type} [Input ι span] (i : ι) (calls : List Reader.Call) :
    let noted := Reader.session calls { input := Asked.mk i [], limits }
    Reader.session calls { input := i, limits } = noted.map (fun step => (step.1, step.2.unasked)) ∧
      ∀ step ∈ noted, ∀ request ∈ step.2.input.requests, request.length ≤ max 8 limits.maxString
  /-- A greater length is refused, in calls and in the midst of values, and up to there no span is asked for. -/
  refused {ι span : Type} [Input ι span] {r r' : Reader (Asked ι)} {n : Nat} : r.limits = limits →
    r.Declares n r' → limits.maxString < n → r'.input.requests = r.input.requests ∧
      (∀ call ∈ Reader.measured, call.run r = .error (.lengthExceeded n limits.maxString) r') ∧
      ∀ rounds levels,
        Reader.valueWithin rounds (levels + 1) .binary r = .error (.lengthExceeded n limits.maxString) r' ∧
        Reader.skipWithin rounds (levels + 1) .binary r = .error (.lengthExceeded n limits.maxString) r'
  /-- The name of a message is refused as well. -/
  refused_name {ι span : Type} [Input ι span] {r₀ r r' : Reader (Asked ι)} {n : Nat} : r₀.limits = limits →
    r₀.Opens r → r.Declares n r' → limits.maxString < n → r'.input.requests = r₀.input.requests ∧
      Reader.messageBegin r₀ = .error (.lengthExceeded n limits.maxString) r'
  /-- An input has to deliver spans that are not longer than what was asked for; those of byte strings and of transports
  are not. -/
  spans : Input.AtMost Bytes ∧ ∀ (σ : Type) [Source σ], Input.AtMost (Transport σ)
  /-- Over an input that keeps to that, no binary is longer than the limit, at any depth. -/
  value {ι span : Type} [Input ι span] {r r' : Reader ι} {type : WireType} {v : Value} : Input.AtMost ι →
    r.limits = limits → Reader.value type r = .ok v r' → ∀ p ∈ v.parts, p.byteLength ≤ limits.maxString
  record {ι span : Type} [Input ι span] {r r' : Reader ι} {s : Record} : Input.AtMost ι →
    r.limits = limits → Reader.record r = .ok s r' → ∀ p ∈ s.parts, p.byteLength ≤ limits.maxString
  binary {ι span : Type} [Input ι span] {r r' : Reader ι} {a : span} : Input.AtMost ι →
    r.limits = limits → Reader.binary r = .ok a r' → (Input.bytes ι a).length ≤ limits.maxString
  memory : MemorySource.steps.Sparing limits
  file : FileSource.steps.Sparing limits

/-- **A header cannot make a reader ask for much**: for spans within the limit on strings or of eight bytes, and over
bytes in memory or over a file for buffers of that size or chunks. -/
theorem Limits.caps (limits : Limits) : limits.Caps where
  asked i calls := Reader.session_asked limits i calls
  refused := by
    rintro ι span _ r r' n rfl h hlt
    refine ⟨h.requests, fun call hcall => Reader.run_of_declares h hlt hcall, fun rounds levels => ?_⟩
    exact ⟨Reader.valueWithin_of_declares h hlt rounds levels, Reader.skipWithin_of_declares h hlt rounds levels⟩
  refused_name := by
    rintro ι span _ r₀ r r' n rfl hopens h hlt
    rw [← hopens.limits_eq] at hlt ⊢
    exact ⟨h.requests.trans hopens.requests, Reader.messageBegin_of_opens hopens h hlt⟩
  spans := ⟨Bytes.exact.atMost, fun _ _ => Transport.exact.atMost⟩
  value := by
    rintro ι span _ r r' type v hspans rfl h
    exact (Reader.gives_value Reader.bears_bytesFit (Reader.gives_bytesFit_binary hspans) type r v r' h).2
  record := by
    rintro ι span _ r r' s hspans rfl h
    exact (Reader.gives_record Reader.bears_bytesFit (Reader.gives_bytesFit_binary hspans) r s r' h).2
  binary := by
    rintro ι span _ r r' a hspans rfl h
    exact (Reader.gives_binary hspans r a r' h).2
  memory := SourceSteps.sparing_of_faithful fun c _ _ hP => SourceSteps.faithful_memory c hP
  file := SourceSteps.sparing_of_faithful fun c _ _ hP => SourceSteps.faithful_file c hP

/-- Five bytes say that a binary of four gigabytes follows; nothing is asked for. -/
example : (Reader.session [.value .binary] { input := Asked.mk ([255, 255, 255, 255, 15] : Bytes) [], limits := {} }).map
    (fun step => (step.1, step.2.input)) = [(.error (.lengthExceeded 4294967295 16777216), ⟨[], []⟩)] := rfl

end CompactWire

import CompactWire.Proofs.Asked
import CompactWire.Proofs.Machine
import CompactWire.Reader.Visit

/-!
# CompactWire.Proofs.Unbroken — no check of a transport ever fails

A transport is used in any way, by readers and directly, over any source, while other users of its pool change the pool
in between.  With every check written out its machine gives the same answers, no check fails, and every span that is
delivered has the length that was asked for (`SourceSteps.Unbroken`).  So it is for bytes in memory, for a range of a
file and for a script, whose own steps are checked, too, and for every source that leaves the pool intact (`unbroken`).

One check depends on what is asked for: the chunks of a span are counted, and the count ends.  As long as no span of
more than `Transport.sure` bytes is asked for, it never gets there, and no call is broken off.  How much storage can be
made is no check of a transport but one of the allocator under the pool: what is asked of it is bounded by what is asked
for, too (`SourceSteps.Modest`).

Each step keeps the machine beside the transport (`Beside.step`), and so does any number of them.
-/

namespace CompactWire

/-- If the span was delivered, then with the length that was asked for. -/
def Request.Whole (request : Request) : Prop := ∀ n, request.came = some n → n = request.length

namespace Machine

variable {σ : Type} {c : Pool.Config} {P Q : Nat → Prop}

/-- A new machine. -/
def opened (steps : SourceSteps σ) (source : σ) (pool : Pool) (chunkSize : PosSize) : Machine σ :=
  { steps, source, account := { pool }, chunkSize }

/-- The machine once other users have left the pool in another state. -/
def withPool (p : Pool) (m : Machine σ) : Machine σ := { m with account := { m.account with pool := p } }

variable [Source σ] {m : Machine σ} {t : Transport σ}

theorem shows_opened {steps : SourceSteps σ} {chunkSize : PosSize} (h : steps.Faithful c chunkSize.val P) (source : σ)
    {pool : Pool} (hpool : pool.Intact c) :
    Shows c P (opened steps source pool chunkSize) { source, pool, chunkSize } where
  faithful := h
  keeps := ⟨hpool, fun _ hn => nomatch hn⟩
  source := rfl
  pool := rfl
  chunkSize := rfl
  held := rfl
  housed _ hn := nomatch hn
  breach := rfl

theorem Shows.withPool (h : Shows c P m t) {p : Pool} (hp : p.Intact c) : Shows c P (m.withPool p) (t.withPool p) :=
  { h with keeps := ⟨hp, h.keeps.requests⟩, pool := rfl }

/-- What readers with the given limits may ask for is allowed. -/
def Suits (Q : Nat → Prop) (limits : Limits) : Prop := ∀ n ≤ max 8 limits.maxString, Q n

/-- Whatever readers ask for, it comes in full or not at all. -/
theorem asks_whole (c : Pool.Config) (hP : ∀ n, Q n → P n) {limits : Limits} (hQ : Suits Q limits) :
    (coupling (σ := σ) c hP hQ).Asks Request.Whole := by
  intro length _
  refine ⟨fun _ hn => (nomatch hn), fun n hn _ hcame => ?_⟩
  cases hcame
  by_contra hne
  exact (hn hne).lengthKept length n rfl

/-- A machine whose requests are noted beside the transport that it shows. -/
def watch (c : Pool.Config) (hP : ∀ n, Q n → P n) {limits : Limits} (hQ : Suits Q limits) :
    Coupling limits (Asked (Machine σ)) (Transport σ) :=
  (coupling c hP hQ).asked (asks_whole c hP hQ)

/-- The machine shows the transport, and whatever was asked for came in full or not at all. -/
def Watches (c : Pool.Config) (P : Nat → Prop) (a : Asked (Machine σ)) (t : Transport σ) : Prop :=
  Shows c P a.input t ∧ ∀ request ∈ a.requests, request.Whole

/-- A span that is asked for by anyone comes in full or not at all. -/
theorem readSpan_asked {a : Asked (Machine σ)} (h : Watches c P a t) {length : Nat} (hlength : P length)
    (hspan : Q length) :
    BothEnd (fun s a s' t => Spanned c length s s' ∧ Watches c P a t) (fun e a t => e.Expected Q ∧ Watches c P a t)
      (fun _ => False) (Input.readSpan length a) (Input.readSpan length t) := by
  obtain ⟨h, hwhole⟩ := h
  have hread : BothEnd _ _ _ (Input.readSpan length a.input) (Input.readSpan length t) :=
    run_of (readSpan_of h hlength hspan)
  show BothEnd _ _ _ (Asked.readSpan length a) _
  unfold Asked.readSpan
  generalize Input.readSpan length a.input = o at hread ⊢
  generalize Input.readSpan length t = o' at hread ⊢
  cases hread with
  | gaveUp h => exact h.elim
  | error h => exact .error ⟨h.1, h.2, List.forall_mem_cons.2 ⟨fun _ hn => (nomatch hn), hwhole⟩⟩
  | ok h =>
    obtain ⟨hbytes, -, hlength⟩ := bytes_of (σ := σ) h.1
    refine .ok ⟨h.1, h.2, List.forall_mem_cons.2 ⟨fun n hn => ?_, hwhole⟩⟩
    cases hn
    exact hbytes ▸ hlength

/-- In lists that belong together item by item the same items can be taken out. -/
theorem forall₂_eraseIdx {α β : Type} {R : α → β → Prop} {as : List α} {bs : List β} (h : List.Forall₂ R as bs) (i : Nat) :
    (as[i]? = none ∧ bs[i]? = none) ∨
      ∃ a b, as[i]? = some a ∧ bs[i]? = some b ∧ R a b ∧ List.Forall₂ R (as.eraseIdx i) (bs.eraseIdx i) := by
  induction h generalizing i with
  | nil => exact .inl ⟨rfl, rfl⟩
  | @cons a b as bs hab h ih =>
    cases i with
    | zero => exact .inr ⟨a, b, rfl, rfl, hab, h⟩
    | succ i =>
      rcases ih i with hnone | ⟨a', b', ha, hb, hab', herased⟩
      · exact .inl hnone
      · exact .inr ⟨a', b', ha, hb, hab', .cons hab herased⟩

/-- The step asks for nothing but what is allowed. -/
def Keeps (Q : Nat → Prop) : Visit → Prop
  | .span length => Q length
  | .reader limits => Suits Q limits
  | _ => True

theorem keeps_any (visit : Visit) : Keeps (fun _ => True) visit := by
  cases visit with
  | reader limits => exact fun _ _ => trivial
  | byte | span | drop | call => trivial

/-- Readers over the machine and the transport, and spans of both, that belong together. -/
structure Beside (c : Pool.Config) (P Q : Nat → Prop) (v : Visited (Asked (Machine σ)) MachineSpan)
    (w : Visited (Transport σ) TransportSpan) : Prop where
  allowed : ∀ n, Q n → P n
  reader : ∃ (limits : Limits) (hQ : Suits Q limits), (watch c allowed hQ).Coupled v.reader w.reader
  spans : List.Forall₂ (fun a b => ∃ length, Spanned c length a b) v.spans w.spans

namespace Beside

variable {v : Visited (Asked (Machine σ)) MachineSpan} {w : Visited (Transport σ) TransportSpan}

theorem input (h : Beside c P Q v w) : Watches c P v.reader.input w.reader.input := by
  obtain ⟨limits, hQ, hreader⟩ := h.reader
  exact hreader.input

/-- The inputs of readers that belong together may be replaced by others that do. -/
theorem withInput (h : Beside c P Q v w) {a : Asked (Machine σ)} {t : Transport σ} (ha : Watches c P a t) :
    Beside c P Q (v.withInput a) (w.withInput t) := by
  obtain ⟨limits, hQ, hreader⟩ := h.reader
  exact ⟨h.allowed, ⟨limits, hQ, { hreader with input := ha }⟩, h.spans⟩

/-- **Every step** has the same answer on both sides, which is no error but an expected one, and keeps them together. -/
theorem step (h : Beside c P Q v w) {visit : Visit} (hvisit : Keeps Q visit) : (v.step visit).1 = (w.step visit).1 ∧
    (∀ e, (w.step visit).1 = .error e → e.Expected Q) ∧ Beside c P Q (v.step visit).2 (w.step visit).2 := by
  obtain ⟨limits, hQ, hreader⟩ := h.reader
  cases visit with
  | byte =>
    have hbyte := (watch c h.allowed hQ).readByte hreader.input
    unfold Visited.step
    dsimp only
    generalize Input.readByte v.reader.input = o at hbyte ⊢
    generalize Input.readByte w.reader.input = o' at hbyte ⊢
    cases hbyte with
    | gaveUp h => exact h.elim
    | error hfailed =>
      refine ⟨rfl, fun e he => ?_, h.withInput hfailed.2⟩
      cases he
      exact hfailed.1
    | ok hread =>
      obtain ⟨rfl, hinput⟩ := hread
      exact ⟨rfl, fun _ he => (nomatch he), h.withInput hinput⟩
  | span length =>
    have hspan := readSpan_asked h.input (h.allowed _ hvisit) hvisit
    unfold Visited.step
    dsimp only
    generalize Input.readSpan length v.reader.input = o at hspan ⊢
    generalize Input.readSpan length w.reader.input = o' at hspan ⊢
    cases hspan with
    | gaveUp h => exact h.elim
    | error hfailed =>
      refine ⟨rfl, fun e he => ?_, h.withInput hfailed.2⟩
      cases he
      exact hfailed.1
    | ok hread =>
      obtain ⟨hspanned, hinput⟩ := hread
      obtain ⟨hbytes, hborrowed, -⟩ := bytes_of (σ := σ) hspanned
      have hbeside := h.withInput hinput
      refine ⟨congrArg Except.ok (congrArg₂ Visit.Answer.span hbytes hborrowed), fun _ he => (nomatch he), h.allowed,
        hbeside.reader, ?_⟩
      exact .cons ⟨length, hspanned⟩ h.spans
  | drop index =>
    unfold Visited.step
    dsimp only
    rcases forall₂_eraseIdx h.spans index with ⟨hnone, hnone'⟩ | ⟨a, b, ha, hb, ⟨length, hspanned⟩, hspans⟩
    · rw [hnone, hnone']
      exact ⟨rfl, fun _ he => (nomatch he), h⟩
    · rw [ha, hb]
      have hinput : Watches c P (Input.release a v.reader.input) (Input.release b w.reader.input) :=
        ⟨release_of h.input.1 hspanned, h.input.2⟩
      exact ⟨rfl, fun _ he => (nomatch he), h.allowed, (h.withInput hinput).reader, hspans⟩
  | reader limits =>
    exact ⟨rfl, fun _ he => (nomatch he), h.allowed, ⟨limits, hvisit, ⟨h.input, rfl, rfl, rfl, rfl, rfl⟩⟩, h.spans⟩
  | call call =>
    obtain ⟨henter, hleave⟩ := (watch (σ := σ) c h.allowed hQ).same_plain fun h => h
    have hrun := (watch c h.allowed hQ).same_run henter hleave call 0 v.reader w.reader hreader
    rw [Reader.Gates.run_plain] at hrun
    unfold Visited.step
    dsimp only
    generalize call.run v.reader = o at hrun ⊢
    generalize call.run w.reader = o' at hrun ⊢
    cases hrun with
    | gaveUp h => exact h.elim
    | error hfailed =>
      refine ⟨rfl, fun e he => ?_, h.allowed, ⟨limits, hQ, hfailed.2⟩, h.spans⟩
      cases he
      exact hfailed.1
    | ok hread =>
      obtain ⟨rfl, _, _, hreader'⟩ := hread
      exact ⟨rfl, fun _ he => (nomatch he), h.allowed, ⟨limits, hQ, hreader'⟩, h.spans⟩

/-- **Any number of steps** have the same answers on both sides, while the pool is changed in between. -/
theorem steps : ∀ (visits : List (Pool × Visit)) {v : Visited (Asked (Machine σ)) MachineSpan}
    {w : Visited (Transport σ) TransportSpan}, Beside c P Q v w → (∀ visit ∈ visits, visit.1.Intact c ∧ Keeps Q visit.2) →
    (v.steps (Asked.change ∘ Machine.withPool) visits).1 = (w.steps Transport.withPool visits).1 ∧
      (∀ e, .error e ∈ (w.steps Transport.withPool visits).1 → e.Expected Q) ∧
      Beside c P Q (v.steps (Asked.change ∘ Machine.withPool) visits).2 (w.steps Transport.withPool visits).2
  | [], v, w, h, _ => ⟨rfl, fun _ he => (nomatch he), h⟩
  | (pool, visit) :: visits, v, w, h, hvisits => by
    rw [List.forall_mem_cons] at hvisits
    have hchanged : Beside c P Q (v.withInput ((Asked.change ∘ Machine.withPool) pool v.reader.input))
        (w.withInput (w.reader.input.withPool pool)) := h.withInput ⟨h.input.1.withPool hvisits.1.1, h.input.2⟩
    obtain ⟨hanswer, herror, hstep⟩ := hchanged.step hvisits.1.2
    obtain ⟨hanswers, herrors, hsteps⟩ := steps visits hstep hvisits.2
    refine ⟨congrArg₂ List.cons hanswer hanswers, fun e he => ?_, hsteps⟩
    rcases List.mem_cons.1 he with he | he
    · exact herror e he.symm
    · exact herrors e he

/-- A reader over a new machine, and one over a new transport. -/
theorem opened {steps : SourceSteps σ} {chunkSize : PosSize} (h : steps.Faithful c chunkSize.val P) (source : σ)
    {pool : Pool} (hpool : pool.Intact c) (hP : ∀ n, Q n → P n) {limits : Limits} (hQ : Suits Q limits) :
    Beside c P Q { reader := { input := { input := .opened steps source pool chunkSize }, limits } }
      { reader := { input := { source, pool, chunkSize }, limits } } :=
  ⟨hP, ⟨limits, hQ, ⟨⟨shows_opened h source hpool, fun _ hr => (nomatch hr)⟩, rfl, rfl, rfl, rfl, rfl⟩⟩, .nil⟩

end Beside

end Machine

namespace SourceSteps

variable {σ : Type} [Source σ]

/-- Over a source with these steps no check fails.  Whatever is done with a transport, while the pool is changed in
between: the machine gives the answers that the transport gives, no check of it fails, also if it is closed at last,
each span that it delivers is as long as the one asked for, and no error says otherwise.  No call is broken off as long
as no span of more than `Transport.sure` bytes may be asked for. -/
def Unbroken (steps : SourceSteps σ) : Prop :=
  ∀ (c : Pool.Config) (source : σ) (pool : Pool) (chunkSize : PosSize) (limits : Limits) (visits : List (Pool × Visit)),
    pool.Intact c → (∀ visit ∈ visits, visit.1.Intact c) →
    let transport : Visited (Transport σ) TransportSpan := { reader := { input := { source, pool, chunkSize }, limits } }
    let machine : Visited (Asked (Machine σ)) MachineSpan :=
      { reader := { input := { input := .opened steps source pool chunkSize }, limits } }
    let run := machine.steps (Asked.change ∘ Machine.withPool) visits
    let left := run.2.reader.input
    run.1 = (transport.steps Transport.withPool visits).1 ∧
      left.input.breach = none ∧
      (∃ closed, Machine.close left.input = .ok () closed) ∧
      (∀ request ∈ left.requests, request.Whole) ∧
      (∀ e, .error e ∈ run.1 → e.LengthKept) ∧
      (Machine.Suits (· ≤ Transport.sure) limits → (∀ visit ∈ visits, Machine.Keeps (· ≤ Transport.sure) visit.2) →
        ∀ reason, .error (.aborted reason) ∉ run.1)

/-- Over a source with these steps a transport asks its pool for as much as its chunks and spans may have, and for no
more: so it is the allocator that says no only if someone asks for more than it can make. -/
def Modest (steps : SourceSteps σ) : Prop :=
  ∀ (bound : Nat) (c : Pool.Config) (source : σ) (pool : Pool) (chunkSize : PosSize) (limits : Limits)
    (visits : List (Pool × Visit)), pool.Intact c → (∀ visit ∈ visits, visit.1.Intact c) → chunkSize.val ≤ bound →
    Machine.Suits (· ≤ bound) limits → (∀ visit ∈ visits, Machine.Keeps (· ≤ bound) visit.2) →
    let machine : Visited (Asked (Machine σ)) MachineSpan :=
      { reader := { input := { input := .opened steps source pool chunkSize }, limits } }
    let run := machine.steps (Asked.change ∘ Machine.withPool) visits
    ∀ n ∈ run.2.reader.input.input.account.requests, n ≤ bound

theorem unbroken_of_faithful {steps : SourceSteps σ} (h : ∀ c max, steps.Faithful c max fun _ => True) :
    steps.Unbroken := by
  intro c source pool chunkSize limits visits hpool hpools
  have hany : Machine.Suits (fun _ => True) limits := fun _ _ => trivial
  have hbeside := Machine.Beside.opened (h c chunkSize.val) source hpool (fun _ h => h) hany
  obtain ⟨hanswers, herrors, hafter⟩ := hbeside.steps visits fun visit hvisit =>
    ⟨hpools visit hvisit, Machine.keeps_any visit.2⟩
  obtain ⟨hshows, hwhole⟩ := hafter.input
  obtain ⟨closed, hclosed, -⟩ := Machine.close_of hshows
  refine ⟨hanswers, hshows.breach, ⟨closed, hclosed⟩, hwhole, fun e he => (herrors e (hanswers ▸ he)).lengthKept, ?_⟩
  -- with the lengths bounded, the same run has fewer errors that may come
  intro hlimits hlengths reason hreason
  have hbounded := Machine.Beside.opened (h c chunkSize.val) source hpool (fun _ _ => trivial) hlimits
  obtain ⟨-, herrors', -⟩ := hbounded.steps visits fun visit hvisit => ⟨hpools visit hvisit, hlengths visit hvisit⟩
  obtain ⟨length, hle, hlt⟩ := (herrors' _ (hanswers ▸ hreason)).long rfl
  exact Nat.not_le.2 hlt hle

theorem modest_of_faithful {steps : SourceSteps σ}
    (h : ∀ (c : Pool.Config) (max : Nat) (P : Nat → Prop), (∀ n ≤ max, P n) → steps.Faithful c max P) :
    steps.Modest := by
  intro bound c source pool chunkSize limits visits hpool hpools hchunk hlimits hlengths
  have hfaithful := h c chunkSize.val (· ≤ bound) fun n hn => Nat.le_trans hn hchunk
  have hbeside := Machine.Beside.opened hfaithful source hpool (fun _ h => h) hlimits
  obtain ⟨-, -, hafter⟩ := hbeside.steps visits fun visit hvisit => ⟨hpools visit hvisit, hlengths visit hvisit⟩
  exact hafter.input.1.keeps.requests

end SourceSteps

open SourceSteps in
/-- **No check of a transport ever fails**, over bytes in memory, a range of a file, any row of chunks, ends and faults,
and every other source that leaves the pool intact, as a pool is however it was used.  What is asked of the pool over the
first two is bounded, too. -/
theorem unbroken : (∀ (c : Pool.Config) (pool : Pool) (loans : List Buffer), pool.Reached c loans → pool.Intact c) ∧
    MemorySource.steps.Unbroken ∧ FileSource.steps.Unbroken ∧ ScriptSource.steps.Unbroken ∧
    (∀ (σ : Type) [Source σ], KeepsPool σ → (SourceSteps.of σ).Unbroken) ∧
    MemorySource.steps.Modest ∧ FileSource.steps.Modest :=
  ⟨fun _ _ _ h => h.intact,
    unbroken_of_faithful fun c _ => faithful_memory c fun _ _ => trivial,
    unbroken_of_faithful fun c _ => faithful_file c fun _ _ => trivial,
    unbroken_of_faithful fun c max => faithful_script c max fun _ => trivial,
    fun _ _ h => unbroken_of_faithful fun c max => faithful_of h c max _,
    modest_of_faithful fun c _ _ hP => faithful_memory c hP,
    modest_of_faithful fun c _ _ hP => faithful_file c hP⟩

/-- The checks can fail: a chunk whose cursor stands behind its bytes, which no source delivers, breaks off the machine. -/
example :
    let source : MemorySource := { data := [7], chunkSize := ⟨1, by decide⟩ }
    let machine := Machine.opened MemorySource.steps source (.new .standard) .mebibyte
    let chunk : Cells := { storage := ⟨[], 0⟩, cursor := 1, sizeClass := none }
    (Outcome.left (Input.readByte { machine with held := some chunk })).breach = some .underflow := rfl

end CompactWire

import Mathlib
import CompactWire.Fetch
import CompactWire.Proofs.Coupling
import CompactWire.Proofs.Transparent

/-!
# CompactWire.Proofs.Contiguous — transports over one source read one stream

A session opens a transport over a source, reads and closes the transport.  If no reading runs out of input, sessions
over one source deliver the next bytes of its stream one after the other, and leave the source right behind them
(`contiguous`).  What they read is what the same readings give on the byte string itself, and they run out of input
only if those do, so it matters neither where one session ends and the next begins nor how large their chunks are.

The exception is a session that is broken off in a span for which it would have to read more chunks than can be counted.
It takes a reading for more than `Transport.sureOf` bytes, for the size of its chunks, and as many to come
(`Read.Long`).  A reader does not ask for as many, but with chunks of one byte.

Readings stand in a row: the calls of a reader, the readings of a session and the sessions over a source.  `inTurn`
makes a row of each, and `Follows.inTurn` is the induction for all three.  What a session delivers is what an input
that records it has seen, which reads as the input without the record (`Read.run_recorded`).
-/

namespace CompactWire

open Outcome (onState onState_bind)
open Reader (Reply Call)

/-! ### Readings in a row -/

/-- What a reading gives.  Its reply does not tell a view from a copy. -/
abbrev Answer := Except Failure Reply

/-- Whether the failure is that the input ended. -/
def Failure.isEnd : Failure → Bool
  | .codec .endOfInput | .undecodable _ .endOfInput => true
  | _ => false

/-- Whether a reading ran out of input. -/
def ranOut (answers : List Answer) : Bool := answers.any fun
  | .ok _ => false
  | .error failure => failure.isEnd

/-- Whether a reading was broken off. -/
def brokenOff (answers : List Answer) : Bool := answers.any fun
  | .error (.aborted _) => true
  | _ => false

variable {ρ ρ' α ι span : Type}

/-- Goes from state to state through a list and collects the answers. -/
def inTurn (f : α → ρ → List Answer × ρ) : List α → ρ → List Answer × ρ
  | [], r => ([], r)
  | a :: as, r => ((f a r).1 ++ (inTurn f as (f a r).2).1, (inTurn f as (f a r).2).2)

/-- The answer of one reading. -/
def attempt (onError : Error → Failure) (x : EStateM Error ρ Reply) (r : ρ) : List Answer × ρ :=
  match x r with
  | .ok reply r => ([.ok reply.unmarked], r)
  | .error e r => ([.error (.naming onError e)], r)

/-- A reading on a transport. -/
inductive Read
  | byte
  | span (length : Nat)
  | int32
  | record (limits : Limits)
  /-- Any calls of a reader.  Before each of them the pool is as other users have left it. -/
  | calls (limits : Limits) (sequence : List (Pool × Call))

/-- The length that a reading may ask for in one span. -/
def Read.longest : Read → Nat
  | .byte => 0
  | .span length => length
  | .int32 => 4
  | .record limits | .calls limits _ => limits.longest

/-- A reading may ask for more bytes in one span than are sure to be read in chunks of `portion` bytes, and of the
`total` to come there are as many. -/
def Read.Long (portion total : Nat) (steps : List (Pool × Read)) : Prop :=
  Transport.sureOf portion < total ∧ ∃ step ∈ steps, Transport.sureOf portion < step.2.longest

instance (portion total : Nat) (steps : List (Pool × Read)) : Decidable (Read.Long portion total steps) :=
  inferInstanceAs (Decidable (_ ∧ ∃ step ∈ steps, Transport.sureOf portion < step.2.longest))

/-- Makes a reading, before which, too, the pool is as other users have left it; `change` tells the input. -/
def Read.run [Input ι span] (change : Pool → ι → ι) : Pool × Read → ι → List Answer × ι
  | (p, .byte), i => attempt .codec (do return .binary [← Input.readByte] true) (change p i)
  | (p, .span length), i => attempt .codec (do return .binary (← Input.withSpan length) true) (change p i)
  | (p, .int32), i =>
    attempt .codec (do return .i32 (Int32.ofNat (← Input.withSpan 4).ofLittleEndian)) (change p i)
  | (p, .record limits), i =>
    let x := attempt (.undecodable .record) (do return .record (← Reader.record)) { input := change p i, limits }
    (x.1, x.2.input)
  | (p, .calls limits sequence), i =>
    let x := inTurn (fun (p, call) r => attempt .codec call.run { r with input := change p r.input }) sequence
      { input := change p i, limits }
    (x.1, x.2.input)

/-- A session over a source, with the pool at its start. -/
inductive Session
  /-- A transport of its own, and any readings on it. -/
  | transport (chunkSize : PosSize) (pool : Pool) (steps : List (Pool × Read))
  | int32 (options : FetchOptions) (pool : Pool)
  | record (options : FetchOptions) (pool : Pool)

namespace Session

/-- The readings of a session. -/
def steps : Session → List (Pool × Read)
  | transport _ _ steps => steps
  | int32 _ pool => [(pool, .int32)]
  | record options pool => [(pool, .record options.limits)]

/-- The pool at the start. -/
def pool : Session → Pool
  | transport _ pool _ | int32 _ pool | record _ pool => pool

/-- The most bytes that a session asks for at a time. -/
def chunkSize : Session → PosSize
  | transport chunkSize _ _ => chunkSize
  | int32 options _ | record options _ => options.chunkSize

/-- The transport of a session as it is opened. -/
def opened {σ : Type} (s : σ) (session : Session) : Transport σ :=
  { source := s, pool := session.pool, chunkSize := session.chunkSize }

variable {σ : Type} [Source σ]

/-- The answers of a session and the source that it leaves. -/
def run (s : σ) (session : Session) : List Answer × σ :=
  match session with
  | transport _ _ steps =>
    let x := inTurn (Read.run Transport.withPool) steps (session.opened s)
    (x.1, x.2.close.source)
  | int32 options pool =>
    match Fetch.int32 options (s, pool) with
    | .ok n (s, _) => ([.ok (.i32 n)], s)
    | .error failure (s, _) => ([.error failure], s)
  | record options pool =>
    match Fetch.record options (s, pool) with
    | .ok r (s, _) => ([.ok (.record r)], s)
    | .error failure (s, _) => ([.error failure], s)

/-- The bytes that the transport of a session delivers. -/
def delivered (s : σ) (session : Session) : Bytes :=
  (inTurn (Read.run (Recorded.change ∘ Transport.withPool)) session.steps ⟨session.opened s, []⟩).2.delivered

/-- What a session gave. -/
structure Outcome (σ : Type) where
  answers : List Answer
  delivered : Bytes
  /-- The source that it left. -/
  source : σ

/-- Runs sessions, each on the source that the one before has left. -/
def runAll : List Session → σ → List (Outcome σ)
  | [], _ => []
  | session :: sessions, s =>
    ⟨(session.run s).1, session.delivered s, (session.run s).2⟩ :: runAll sessions (session.run s).2

/-- No session runs out of input. -/
def Lasts (sessions : List Session) (s : σ) : Prop := ∀ o ∈ runAll sessions s, ranOut o.answers = false

/-- A session is broken off. -/
def BrokenOff (sessions : List Session) (s : σ) : Prop := ∃ o ∈ runAll sessions s, brokenOff o.answers = true

/-- A session may ask for more bytes in one span than are sure to be read in its chunks, which hold `least` of the size
that it asks for, and of the `total` to come there are as many. -/
def AsksForLong (least : Nat → Nat) (total : Nat) (sessions : List Session) : Prop :=
  ∃ session ∈ sessions, Read.Long (least session.chunkSize.val) total session.steps

instance (least : Nat → Nat) (total : Nat) (sessions : List Session) : Decidable (AsksForLong least total sessions) :=
  inferInstanceAs (Decidable (∃ session ∈ sessions, Read.Long (least session.chunkSize.val) total session.steps))

/-- What the readings of all sessions give on bytes, where no session ends and there are no chunks. -/
def readings (sessions : List Session) (d : Bytes) : List Answer :=
  (inTurn (Read.run fun _ d => d) (sessions.flatMap steps) d).1

end Session

/-! ### Rows on two sides -/

/-- Both sides ran out of input, or both gave the same answers and go on from states that belong together.  If `may`, the
second side may be broken off. -/
def Follows (may : Prop) (R : ρ → ρ' → Prop) (x : List Answer × ρ) (y : List Answer × ρ') : Prop :=
  (may ∧ brokenOff y.1 = true) ∨ (ranOut x.1 = true ∧ ranOut y.1 = true) ∨ (x.1 = y.1 ∧ R x.2 y.2)

theorem ranOut_append {a b : List Answer} : ranOut (a ++ b) = true ↔ ranOut a = true ∨ ranOut b = true := by
  unfold ranOut
  rw [List.any_append, Bool.or_eq_true]

theorem brokenOff_append {a b : List Answer} :
    brokenOff (a ++ b) = true ↔ brokenOff a = true ∨ brokenOff b = true := by
  unfold brokenOff
  rw [List.any_append, Bool.or_eq_true]

section

variable {may may' : Prop} {R : ρ → ρ' → Prop} {x : List Answer × ρ} {y : List Answer × ρ'}

theorem Follows.mono {ρ₁ ρ₂ : Type} {R' : ρ₁ → ρ₂ → Prop} {f : ρ → ρ₁} {g : ρ' → ρ₂} (h : Follows may R x y)
    (hmay : may → may') (hR : ∀ r r', R r r' → R' (f r) (g r')) : Follows may' R' (x.1, f x.2) (y.1, g y.2) := by
  rcases h with ⟨hm, hbroken⟩ | hout | ⟨hanswers, hstates⟩
  · exact Or.inl ⟨hmay hm, hbroken⟩
  · exact Or.inr (Or.inl hout)
  · exact Or.inr (Or.inr ⟨hanswers, hR _ _ hstates⟩)

theorem Follows.ranOut_eq (h : Follows may R x y) (hwhole : ¬(may ∧ brokenOff y.1 = true)) :
    ranOut x.1 = ranOut y.1 := by
  rcases h.resolve_left hwhole with ⟨hout, hout'⟩ | ⟨hanswers, -⟩
  · rw [hout, hout']
  · rw [hanswers]

/-- What did not run out follows to the end. -/
theorem Follows.of_lasts (h : Follows may R x y) (hwhole : ¬(may ∧ brokenOff y.1 = true)) (hin : ranOut y.1 = false) :
    x.1 = y.1 ∧ R x.2 y.2 := by
  rw [← Bool.not_eq_true] at hin
  exact (h.resolve_left hwhole).resolve_left fun hout => hin hout.2

theorem Follows.inTurn {f : α → ρ → List Answer × ρ} {g : α → ρ' → List Answer × ρ'} :
    ∀ (as : List α) {r : ρ} {r' : ρ'}, (∀ a ∈ as, ∀ r r', R r r' → Follows may R (f a r) (g a r')) → R r r' →
      Follows may R (inTurn f as r) (inTurn g as r')
  | [], _, _, _, hr => Or.inr (Or.inr ⟨rfl, hr⟩)
  | a :: as, r, r', h, hr => by
    rw [List.forall_mem_cons] at h
    rcases h.1 r r' hr with ⟨hm, hbroken⟩ | ⟨hout, hout'⟩ | ⟨hanswers, hstates⟩
    · exact Or.inl ⟨hm, brokenOff_append.2 (Or.inl hbroken)⟩
    · exact Or.inr (Or.inl ⟨ranOut_append.2 (Or.inl hout), ranOut_append.2 (Or.inl hout')⟩)
    · rcases Follows.inTurn as h.2 hstates with ⟨hm, hbroken⟩ | ⟨hout, hout'⟩ | ⟨hrest, hlast⟩
      · exact Or.inl ⟨hm, brokenOff_append.2 (Or.inr hbroken)⟩
      · exact Or.inr (Or.inl ⟨ranOut_append.2 (Or.inr hout), ranOut_append.2 (Or.inr hout')⟩)
      · refine Or.inr (Or.inr ⟨?_, hlast⟩)
        show (f a r).1 ++ _ = (g a r').1 ++ _
        rw [hanswers, hrest]

end

theorem inTurn_singleton (f : α → ρ → List Answer × ρ) (a : α) (r : ρ) : inTurn f [a] r = f a r := by
  simp only [inTurn, List.append_nil]

theorem inTurn_append {f : α → ρ → List Answer × ρ} {bs : List α} : ∀ {as : List α} {r : ρ}, inTurn f (as ++ bs) r =
    ((inTurn f as r).1 ++ (inTurn f bs (inTurn f as r).2).1, (inTurn f bs (inTurn f as r).2).2)
  | [], _ => rfl
  | a :: as, r => by
    simp only [List.cons_append, inTurn]
    rw [inTurn_append, List.append_assoc]

theorem inTurn_flatMap {β : Type} {f : α → ρ → List Answer × ρ} {g : β → List α} : ∀ {bs : List β} {r : ρ},
    inTurn f (bs.flatMap g) r = inTurn (fun b => inTurn f (g b)) bs r
  | [], _ => rfl
  | b :: bs, r => by
    rw [List.flatMap_cons, inTurn_append]
    simp only [inTurn]
    rw [inTurn_flatMap]

/-- After any error but the end of the input both sides go on, unless the second one is broken off, as it may be. -/
structure Sides.GoesOn (S : Sides ρ ρ') (may : Prop) : Prop where
  states_of_failed {e : Error} {r : ρ} {r' : ρ'} : e ≠ .endOfInput → S.failed e r r' → ∃ n, S.states n r r'
  of_givesUp {e : Error} : S.givesUp e → e = .aborted .overflow ∧ may

theorem Follows.attempt {S : Sides ρ ρ'} {may : Prop} (hS : S.GoesOn may) (onError : Error → Failure)
    (hend : (onError .endOfInput).isEnd = true) {n : Nat} {x : EStateM Error ρ Reply} {y : EStateM Error ρ' Reply}
    {r : ρ} {r' : ρ'} (h : Agrees S n 0 x y fun a b => a.unmarked = b.unmarked) (hr : S.states n r r') :
    Follows may (fun r r' => ∃ n, S.states n r r') (attempt onError x r) (attempt onError y r') := by
  have h := h r r' hr
  unfold CompactWire.attempt
  generalize x r = o at h ⊢
  generalize y r' = o' at h ⊢
  cases h with
  | ok h =>
    obtain ⟨hreply, m, -, hs⟩ := h
    exact Or.inr (Or.inr ⟨congrArg (fun reply => [Except.ok reply]) hreply, m, hs⟩)
  | @error e s t h =>
    by_cases he : e = .endOfInput
    · subst he
      have hout : ranOut [.error (onError .endOfInput)] = true := (Bool.or_false _).trans hend
      exact Or.inr (Or.inl ⟨hout, hout⟩)
    · exact Or.inr (Or.inr ⟨rfl, hS.states_of_failed he h⟩)
  | gaveUp h =>
    obtain ⟨rfl, hmay⟩ := hS.of_givesUp h
    exact Or.inl ⟨hmay, rfl⟩

/-- The readings agree on their reply as it is. -/
theorem Follows.attempt_eq {S : Sides ρ ρ'} {may : Prop} (hS : S.GoesOn may) (onError : Error → Failure)
    (hend : (onError .endOfInput).isEnd = true) {n k : Nat} {x : EStateM Error ρ Reply} {y : EStateM Error ρ' Reply}
    {r : ρ} {r' : ρ'} (h : Agrees S n k x y Eq) (hr : S.states n r r') :
    Follows may (fun r r' => ∃ n, S.states n r r') (CompactWire.attempt onError x r)
      (CompactWire.attempt onError y r') :=
  Follows.attempt hS onError hend (h.mono (Nat.zero_le k) fun _ _ hab => congrArg Reply.unmarked hab) hr

/-! ### Readings -/

theorem Input.Presents.goesOn {κ span : Type} [Input κ span] {sure : Nat} {P : κ → Bytes → Prop} (h : Presents sure P)
    (longest total : Nat) : (h.link longest total).toSides.GoesOn (sure < max 8 longest ∧ sure < total) ∧
      (h.link longest total).readers.GoesOn (sure < max 8 longest ∧ sure < total) where
  left := ⟨fun he hfailed => ⟨_, rfl, hfailed he⟩, id⟩
  right := ⟨fun he hfailed => ⟨_, { hfailed with input := ⟨rfl, hfailed.input he⟩ }⟩, id⟩

/-- The pools that a reading finds. -/
def Read.Finds (allowed : Pool → Prop) : Pool × Read → Prop
  | (p, .calls _ sequence) => allowed p ∧ ∀ step ∈ sequence, allowed step.1
  | (p, _) => allowed p

theorem Read.Finds.start {allowed : Pool → Prop} {step : Pool × Read} (h : Finds allowed step) : allowed step.1 := by
  obtain ⟨p, read⟩ := step
  cases read with
  | calls => exact h.1
  | byte | span | int32 | record => exact h

/-- A reading follows the same reading on the bytes that the input presents, of which there are at most `total`. -/
theorem Read.follows {κ : Type} [Input κ span] {portion : Nat} (hpos : 0 < portion) {P : κ → Bytes → Prop}
    (h : Input.Presents (Transport.sureOf portion) P) (change : Pool → κ → κ) {allowed : Pool → Prop}
    (hchange : ∀ p k d, allowed p → P k d → P (change p k) d) {step : Pool × Read} (hstep : Finds allowed step)
    {total : Nat} {d : Bytes} {k : κ} (hd : d.length ≤ total) (hk : P k d) :
    Follows (Transport.sureOf portion < total ∧ Transport.sureOf portion < step.2.longest)
      (fun d k => d.length ≤ total ∧ P k d) (run (fun _ d => d) step d) (run change step k) := by
  have hstart := hchange step.1 k d hstep.start hk
  obtain ⟨p, read⟩ := step
  let L := h.link read.longest total
  have hsides : L.toSides.states d.length d (change p k) := ⟨rfl, hd, hstart⟩
  have hopened {limits : Limits} (hlimits : limits.longest ≤ read.longest) :
      L.readers.states d.length { input := d, limits } { input := change p k, limits } :=
    ⟨hsides, ⟨rfl, hlimits⟩, rfl, rfl, rfl⟩
  have hinput : ∀ (d : Bytes) (k : κ), (∃ n, L.states n d k) → d.length ≤ total ∧ P k d := fun _ _ ⟨_, hs⟩ => hs.2
  have hreader : ∀ (r : Reader Bytes) (r' : Reader κ), (∃ n, L.readers.states n r r') →
      r.input.length ≤ total ∧ P r'.input r.input := fun _ _ ⟨_, hs⟩ => hs.input.2
  have hlong : Transport.sureOf portion < max 8 read.longest ∧ Transport.sureOf portion < total →
      Transport.sureOf portion < total ∧ Transport.sureOf portion < read.longest :=
    fun hm => ⟨hm.2, (Transport.sureOf_lt_longest hpos).1 hm.1⟩
  obtain ⟨hgoes, hgoes'⟩ := h.goesOn read.longest total
  cases read with
  | byte =>
    have hagrees := (L.readByte d.length).map fun b => Reply.binary [b] true
    exact (Follows.attempt_eq hgoes .codec rfl hagrees hsides).mono (f := id) (g := id) hlong hinput
  | span length =>
    have hcovers : length ≤ max 8 length := Nat.le_max_right 8 length
    have hagrees := (L.agrees_span (n := d.length) hcovers).map (Reply.binary · true)
    exact (Follows.attempt_eq hgoes .codec rfl hagrees hsides).mono (f := id) (g := id) hlong hinput
  | int32 =>
    have hcovers : 4 ≤ max 8 4 := by decide
    have hagrees := (L.agrees_span (n := d.length) hcovers).map fun b => Reply.i32 (Int32.ofNat b.ofLittleEndian)
    exact (Follows.attempt_eq hgoes .codec rfl hagrees hsides).mono (f := id) (g := id) hlong hinput
  | record limits =>
    have hagrees := (L.agrees_record (n := d.length)).map Reply.record
    have hfollows := Follows.attempt_eq hgoes' (.undecodable .record) rfl hagrees (hopened limits.longest.le_refl)
    exact hfollows.mono hlong hreader
  | calls limits sequence =>
    refine (Follows.inTurn sequence ?_ ⟨d.length, hopened limits.longest.le_refl⟩).mono hlong hreader
    rintro ⟨p, call⟩ hmem r r' ⟨n, hr⟩
    have hlent := hchange p r'.input r.input (hstep.2 _ hmem) hr.input.2.2
    have hagrees := L.agrees_run (n := n) (fun _ _ hl => hl.1) call
    exact Follows.attempt hgoes' .codec rfl hagrees { hr with input := ⟨hr.input.1, hr.input.2.1, hlent⟩ }

/-- So does a row of readings. -/
theorem Read.follows_row {κ : Type} [Input κ span] {portion : Nat} (hpos : 0 < portion) {P : κ → Bytes → Prop}
    (h : Input.Presents (Transport.sureOf portion) P) (change : Pool → κ → κ) {allowed : Pool → Prop}
    (hchange : ∀ p k d, allowed p → P k d → P (change p k) d) {steps : List (Pool × Read)}
    (hsteps : ∀ step ∈ steps, Finds allowed step) {total : Nat} {d : Bytes} {k : κ} (hd : d.length ≤ total)
    (hk : P k d) : Follows (Read.Long portion total steps)
      (fun d k => d.length ≤ total ∧ P k d) (inTurn (run fun _ d => d) steps d) (inTurn (run change) steps k) := by
  refine Follows.inTurn steps (fun step hmem d k hk => ?_) ⟨hd, hk⟩
  exact (follows hpos h change hchange (hsteps step hmem) hk.1 hk.2).mono (f := id) (g := id)
    (fun hlong => ⟨hlong.1, step, hmem, hlong.2⟩) fun _ _ h => h

/-! ### With a record -/

/-- An input with a record beside the input without. -/
def Recorded.beside (limits : Limits) (κ : Type) [Input κ span] : Coupling limits (Recorded κ) κ where
  inputs _ i j := i.input = j
  failed _ := True
  failed_own _ := trivial
  remaining := congrArg Input.remaining
  readByte := by
    rintro parents i _ rfl
    show BothEnd _ _ _ (deliver _ _ i) _
    unfold deliver
    cases (Input.readByte i.input : EStateM.Result Error κ UInt8) with
    | ok b j => exact .ok ⟨rfl, rfl⟩
    | error e j => exact .error ⟨trivial, rfl⟩
  readSpan := by
    rintro parents i _ length - rfl
    show BothEnd _ _ _ (deliver _ _ i) _
    unfold deliver
    cases (Input.readSpan length i.input : EStateM.Result Error κ span) with
    | ok a j => exact .ok ⟨rfl, rfl, fun _ => trivial, rfl⟩
    | error e j => exact .error ⟨trivial, rfl⟩

/-- What gives the same on both sides is answered in the same way. -/
theorem attempt_view {v : ρ → ρ'} {α : Type} {x : EStateM Error ρ α} {y : EStateM Error ρ' α} {r : ρ}
    (h : y (v r) = onState v (x r)) (onError : Error → Failure) (f : α → Reply) :
    (attempt onError (do return f (← x)) r).1 = (attempt onError (do return f (← y)) (v r)).1 ∧
      v (attempt onError (do return f (← x)) r).2 = (attempt onError (do return f (← y)) (v r)).2 := by
  have hmap : (do return f (← y)) (v r) = onState v ((do return f (← x)) r) := onState_bind h fun _ _ => rfl
  unfold attempt
  rw [hmap]
  cases (do return f (← x)) r <;> exact ⟨rfl, rfl⟩

theorem attempt_same {limits : Limits} {κ : Type} [Input κ span] {x : Reading (Recorded κ) Reply} {y : Reading κ Reply}
    (h : (Recorded.beside limits κ).Same x y) (onError : Error → Failure) {r : Reader (Recorded κ)} {r' : Reader κ}
    (hr : (Recorded.beside limits κ).Coupled r r') : (attempt onError x r).1 = (attempt onError y r').1 ∧
      (Recorded.beside limits κ).Coupled (attempt onError x r).2 (attempt onError y r').2 := by
  have hends := h 0 r r' hr
  unfold attempt
  generalize x r = o at hends ⊢
  generalize y r' = o' at hends ⊢
  cases hends with
  | ok h =>
    obtain ⟨rfl, _, _, hr'⟩ := h
    exact ⟨rfl, hr'⟩
  | error h => exact ⟨rfl, h.2⟩
  | gaveUp h => exact h.elim

/-- A row of the same steps gives the same answers. -/
theorem inTurn_same {R : ρ → ρ' → Prop} {f : α → ρ → List Answer × ρ} {g : α → ρ' → List Answer × ρ'}
    (h : ∀ a r r', R r r' → (f a r).1 = (g a r').1 ∧ R (f a r).2 (g a r').2) : ∀ (as : List α) {r : ρ} {r' : ρ'},
    R r r' → (inTurn f as r).1 = (inTurn g as r').1 ∧ R (inTurn f as r).2 (inTurn g as r').2
  | [], _, _, hr => ⟨rfl, hr⟩
  | a :: as, r, r', hr => by
    obtain ⟨hfirst, hr'⟩ := h a r r' hr
    obtain ⟨hothers, hlast⟩ := inTurn_same h as hr'
    exact ⟨congrArg₂ (· ++ ·) hfirst hothers, hlast⟩

theorem Recorded.readByte_view {κ : Type} [Input κ span] (k : Recorded κ) :
    (Input.readByte k.input : EStateM.Result Error κ UInt8) = onState Recorded.input (Input.readByte k) := by
  show _ = onState _ (deliver _ _ k)
  unfold deliver
  cases (Input.readByte k.input : EStateM.Result Error κ UInt8) <;> rfl

theorem Recorded.withSpan_view {κ : Type} [Input κ span] (length : Nat) (k : Recorded κ) :
    Input.withSpan length k.input = onState Recorded.input (Input.withSpan length k) := by
  refine onState_bind ?_ fun _ _ => rfl
  show _ = onState _ (deliver _ _ k)
  unfold deliver
  cases (Input.readSpan length k.input : EStateM.Result Error κ span) <;> rfl

/-- A record of what is delivered makes no difference to a reading. -/
theorem Read.run_recorded {κ : Type} [Input κ span] (change : Pool → κ → κ) (step : Pool × Read) {k : Recorded κ} {j : κ}
    (hk : k.input = j) : (run (Recorded.change ∘ change) step k).1 = (run change step j).1 ∧
      (run (Recorded.change ∘ change) step k).2.input = (run change step j).2 := by
  subst hk
  obtain ⟨p, read⟩ := step
  have hopened (limits : Limits) : (Recorded.beside limits κ).Coupled
      { input := (Recorded.change ∘ change) p k, limits } { input := change p k.input, limits } :=
    ⟨rfl, rfl, rfl, rfl, rfl, rfl⟩
  have hgates (limits : Limits) := (Recorded.beside limits κ).same_plain fun h => h
  cases read with
  | byte => exact attempt_view (Recorded.readByte_view _) .codec fun b => .binary [b] true
  | span length => exact attempt_view (Recorded.withSpan_view length _) .codec (.binary · true)
  | int32 => exact attempt_view (Recorded.withSpan_view 4 _) .codec fun b => .i32 (Int32.ofNat b.ofLittleEndian)
  | record limits =>
    have hrun := (Recorded.beside limits κ).same_run (hgates limits).1 (hgates limits).2 .record
    rw [Reader.Gates.run_plain] at hrun
    obtain ⟨hanswer, hr⟩ := attempt_same hrun (.undecodable .record) (hopened limits)
    exact ⟨hanswer, hr.input⟩
  | calls limits sequence =>
    have hcalls (step : Pool × Call) (r : Reader (Recorded κ)) (r' : Reader κ)
        (hr : (Recorded.beside limits κ).Coupled r r') :
        let x := attempt .codec step.2.run { r with input := (Recorded.change ∘ change) step.1 r.input }
        let y := attempt .codec step.2.run { r' with input := change step.1 r'.input }
        x.1 = y.1 ∧ (Recorded.beside limits κ).Coupled x.2 y.2 := by
      have hrun := (Recorded.beside limits κ).same_run (hgates limits).1 (hgates limits).2 step.2
      rw [Reader.Gates.run_plain] at hrun
      exact attempt_same hrun .codec { hr with input := congrArg (change step.1) hr.input }
    obtain ⟨hanswers, hr⟩ := inTurn_same hcalls sequence (hopened limits)
    exact ⟨hanswers, hr.input⟩

/-! ### Sessions -/

namespace Session

/-- All pools of a session are sound, and have the configuration of the first. -/
def Sound (session : Session) : Prop :=
  session.pool.Sound ∧
    ∀ step ∈ session.steps, Read.Finds (fun p => p.Sound ∧ p.config = session.pool.config) step

variable {σ : Type} {At : σ → Bytes → Bytes → Prop} {s : σ} {d : Bytes}

theorem offersIn_opened {session : Session} (hsound : session.Sound) (hat : At s [] d) :
    (session.opened s).OffersIn At session.pool.config session.chunkSize d :=
  Transport.offersIn_opened session.chunkSize hsound.1 hat

variable [Source σ]

/-- What reads one thing from a source is a session with one reading. -/
theorem run_eq (s : σ) (session : Session) : session.run s =
    ((inTurn (Read.run Transport.withPool) session.steps (session.opened s)).1,
      (inTurn (Read.run Transport.withPool) session.steps (session.opened s)).2.close.source) := by
  cases session with
  | transport => rfl
  | int32 options pool =>
    rw [steps, inTurn_singleton]
    simp only [run, Read.run, opened, Session.pool, chunkSize, Transport.withPool, Fetch.int32, Fetch.bytes,
      Fetch.withTransport, attempt, bind, EStateM.bind]
    generalize Input.withSpan (ι := Transport σ) 4 _ = o
    cases o <;> rfl
  | record options pool =>
    rw [steps, inTurn_singleton]
    simp only [run, Read.run, opened, Session.pool, chunkSize, Transport.withPool, Fetch.record, Fetch.withReader,
      Fetch.about, attempt, bind, EStateM.bind]
    generalize Reader.record (ι := Transport σ) _ = o
    cases o <;> rfl

section

variable {least : Nat → Nat} (hs : Source.Rewinds At) (hfills : Source.Fills At least)
include hs hfills

/-- A session follows its readings on the bytes to come, and leaves its source right behind what they read. -/
theorem follows {session : Session} (hsound : session.Sound) {total : Nat} (htotal : d.length ≤ total)
    (hat : At s [] d) : Follows (Read.Long (least session.chunkSize.val) total session.steps)
      (fun d s => d.length ≤ total ∧ At s [] d) (inTurn (Read.run fun _ d => d) session.steps d) (session.run s) := by
  have hrow := Read.follows_row (hfills.least_pos session.chunkSize.property)
    (Transport.presents hs.toDelivers hfills session.pool.config session.chunkSize) Transport.withPool
    (fun _ _ _ hp ht => ht.withPool hp.1 hp.2) hsound.2 htotal (offersIn_opened hsound hat)
  rw [run_eq]
  refine hrow.mono (f := id) (g := fun t : Transport σ => t.close.source) (fun h => h) fun _ _ h => ?_
  exact ⟨h.1, (h.2.offers.close hs).1⟩

/-- A session that is not broken off and does not run out of input delivers what its readings take from the bytes to
come. -/
theorem delivered_append {session : Session} (hsound : session.Sound) {total : Nat} (htotal : d.length ≤ total)
    (hat : At s [] d) (hwhole : ¬(Read.Long (least session.chunkSize.val) total session.steps ∧
      brokenOff (session.run s).1 = true)) (hin : ranOut (session.run s).1 = false) :
    session.delivered s ++ (inTurn (Read.run fun _ d => d) session.steps d).2 = d := by
  have hpresents := (Transport.presents hs.toDelivers hfills session.pool.config session.chunkSize).recorded d
  have hrow := Read.follows_row (k := ⟨session.opened s, []⟩) (hfills.least_pos session.chunkSize.property) hpresents
    (Recorded.change ∘ Transport.withPool) (fun _ _ _ hp hk => ⟨hk.1.withPool hp.1 hp.2, hk.2⟩) hsound.2 htotal
    ⟨offersIn_opened hsound hat, rfl⟩
  have hopened : Recorded.input (Recorded.mk (session.opened s) []) = session.opened s := rfl
  have hsame := (inTurn_same (R := fun (k : Recorded (Transport σ)) t => k.input = t)
    (fun step _ _ => Read.run_recorded Transport.withPool step) session.steps hopened).1
  rw [run_eq, ← hsame] at hwhole hin
  exact (hrow.of_lasts hwhole hin).2.2.2

end

theorem answers_runAll : ∀ {sessions : List Session} {s : σ},
    (runAll sessions s).flatMap (·.answers) = (inTurn (fun session s => session.run s) sessions s).1
  | [], _ => rfl
  | session :: sessions, s => by
    simp only [runAll, inTurn, List.flatMap_cons]
    rw [answers_runAll]

theorem lasts_iff {sessions : List Session} : Lasts sessions s ↔
    ranOut (inTurn (fun session s => session.run s) sessions s).1 = false := by
  rw [← answers_runAll]
  unfold Lasts ranOut
  rw [List.any_flatMap, List.any_eq_false]
  simp only [Bool.not_eq_true]

theorem brokenOff_iff {sessions : List Session} : BrokenOff sessions s ↔
    brokenOff (inTurn (fun session s => session.run s) sessions s).1 = true := by
  rw [← answers_runAll]
  unfold BrokenOff brokenOff
  rw [List.any_flatMap, List.any_eq_true]

/-- Sessions over a source with the bytes `ahead` to come read one stream. -/
structure Contiguous (position : σ → Nat) (s : σ) (ahead : Bytes) (sessions : List Session) : Prop where
  /-- Together they deliver the next bytes. -/
  delivered : (runAll sessions s).flatMap (·.delivered) <+: ahead
  /-- Every session leaves its source right behind what was delivered so far. -/
  position_eq (i : Nat) (h : i < (runAll sessions s).length) : position (runAll sessions s)[i].source =
    position s + (((runAll sessions s).take (i + 1)).flatMap (·.delivered)).length
  /-- They read what the same readings give on the bytes themselves. -/
  answers : (runAll sessions s).flatMap (·.answers) = readings sessions ahead

/-- Sessions over a source with the bytes `ahead` to come run out of input just if their readings do on these bytes, and
read one stream if not; or one of them is broken off, for which more bytes have to be asked for in one span, and to come,
than are sure to be read in its chunks. -/
def OneStream (position : σ → Nat) (least : Nat → Nat) (s : σ) (ahead : Bytes) (sessions : List Session) : Prop :=
  (BrokenOff sessions s ∧ AsksForLong least ahead.length sessions) ∨
  ((Lasts sessions s ↔ ranOut (readings sessions ahead) = false) ∧
    (Lasts sessions s → Contiguous position s ahead sessions))

section

variable {least : Nat → Nat} (hs : Source.Rewinds At) (hfills : Source.Fills At least)
include hs hfills

/-- The row of sessions follows the row of all their readings. -/
theorem follows_all {sessions : List Session} (hsound : ∀ session ∈ sessions, session.Sound) {total : Nat}
    (htotal : d.length ≤ total) (hat : At s [] d) :
    Follows (AsksForLong least total sessions) (fun d s => d.length ≤ total ∧ At s [] d)
      (inTurn (Read.run fun _ d => d) (sessions.flatMap steps) d)
      (inTurn (fun session s => session.run s) sessions s) := by
  rw [inTurn_flatMap]
  refine Follows.inTurn sessions (fun session hmem _ _ h => ?_) ⟨htotal, hat⟩
  exact (follows hs hfills (hsound session hmem) h.1 h.2).mono (f := id) (g := id)
    (fun hlong => ⟨session, hmem, hlong⟩) fun _ _ h => h

/-- The induction over the sessions: each begins where the one before has left the source. -/
theorem delivered_position {position : σ → Nat} {stop total : Nat}
    (hends : ∀ {s d}, At s [] d → position s + d.length = stop) : ∀ (sessions : List Session) {s : σ} {d : Bytes},
    d.length ≤ total → At s [] d → (∀ session ∈ sessions, session.Sound) →
      ¬(AsksForLong least total sessions ∧ BrokenOff sessions s) → Lasts sessions s →
      (runAll sessions s).flatMap (·.delivered) <+: d ∧
      ∀ (i : Nat) (h : i < (runAll sessions s).length), position (runAll sessions s)[i].source =
        position s + (((runAll sessions s).take (i + 1)).flatMap (·.delivered)).length
  | [], s, d, _, _, _, _, _ => ⟨List.nil_prefix, fun _ h => absurd h (Nat.not_lt_zero _)⟩
  | session :: sessions, s, d, htotal, hat, hsound, hwhole, hin => by
    rw [List.forall_mem_cons] at hsound
    unfold Lasts runAll at hin
    rw [List.forall_mem_cons] at hin
    unfold AsksForLong BrokenOff runAll at hwhole
    simp only [List.exists_mem_cons_iff] at hwhole
    have hfirst : ¬(Read.Long (least session.chunkSize.val) total session.steps ∧
        brokenOff (session.run s).1 = true) := fun h => hwhole ⟨Or.inl h.1, Or.inl h.2⟩
    obtain ⟨htotal', hat'⟩ := ((follows hs hfills hsound.1 htotal hat).of_lasts hfirst hin.1).2
    have hd := delivered_append hs hfills hsound.1 htotal hat hfirst hin.1
    generalize (inTurn (Read.run fun _ d => d) session.steps d).2 = d' at htotal' hat' hd
    subst hd
    obtain ⟨hdelivered, hposition⟩ := delivered_position hends sessions htotal' hat' hsound.2
      (fun h => hwhole ⟨Or.inr h.1, Or.inr h.2⟩) hin.2
    have hnext : position (session.run s).2 = position s + (session.delivered s).length := by
      have hbefore := hends hat
      have hafter := hends hat'
      rw [List.length_append] at hbefore
      omega
    constructor
    · rw [runAll, List.flatMap_cons]
      exact (List.prefix_append_right_inj _).2 hdelivered
    · rintro (_ | i) hi
      · simp only [runAll, List.getElem_cons_zero, List.take_succ_cons, List.take_zero, List.flatMap_singleton]
        exact hnext
      · have hlater := hposition i (Nat.lt_of_succ_lt_succ hi)
        simp only [runAll, List.getElem_cons_succ, List.take_succ_cons, List.flatMap_cons, List.length_append]
        omega

theorem oneStream_of_rewinds {position : σ → Nat} {stop : Nat}
    (hends : ∀ {s d}, At s [] d → position s + d.length = stop) {sessions : List Session}
    (hsound : ∀ session ∈ sessions, session.Sound) (hat : At s [] d) : OneStream position least s d sessions := by
  by_cases hbroken : AsksForLong least d.length sessions ∧ BrokenOff sessions s
  · exact Or.inl ⟨hbroken.2, hbroken.1⟩
  have hfollows := follows_all hs hfills hsound (Nat.le_refl d.length) hat
  have hwhole := hbroken
  rw [brokenOff_iff] at hwhole
  refine Or.inr ⟨?_, fun hin => ?_⟩
  · rw [lasts_iff, readings, hfollows.ranOut_eq hwhole]
  · obtain ⟨hdelivered, hposition⟩ :=
      delivered_position hs hfills hends sessions (Nat.le_refl d.length) hat hsound hbroken hin
    refine ⟨hdelivered, hposition, ?_⟩
    rw [answers_runAll]
    exact (hfollows.of_lasts hwhole (lasts_iff.1 hin)).1.symm

end

end Session

/-- A number, a record and three bytes more. -/
def Session.framed : Bytes := [3, 0, 0, 0, 20, 2, 0, 12, 7, 8]

/-- Three sessions that read all of `framed`; the reader of the last one meets an error first. -/
def Session.three (pool : Pool) : List Session :=
  [.int32 {} pool, .record {} pool,
    .transport ⟨2, by decide⟩ pool [(pool, .calls {} [(pool, .structEnd), (pool, .byte)]), (pool, .span 2)]]

theorem Session.sound_three {pool : Pool} (h : pool.Sound) : ∀ session ∈ three pool, session.Sound := by
  have hpool : pool.Sound ∧ pool.config = pool.config := ⟨h, rfl⟩
  have hcalls : ∀ step ∈ [(pool, Call.structEnd), (pool, Call.byte)], step.1.Sound ∧ step.1.config = pool.config :=
    List.forall_mem_cons.2 ⟨hpool, List.forall_mem_singleton.2 hpool⟩
  refine List.forall_mem_cons.2 ⟨?_, List.forall_mem_cons.2 ⟨?_, List.forall_mem_singleton.2 ?_⟩⟩
  · exact ⟨h, List.forall_mem_singleton.2 hpool⟩
  · exact ⟨h, List.forall_mem_singleton.2 hpool⟩
  · exact ⟨h, List.forall_mem_cons.2 ⟨⟨hpool, hcalls⟩, List.forall_mem_singleton.2 hpool⟩⟩

end CompactWire

import Mathlib
import CompactWire.Proofs.Lending
import CompactWire.Proofs.Ledger
import CompactWire.Proofs.Watched
import CompactWire.Source.File
import CompactWire.Source.Memory
import CompactWire.Source.Script

/-!
# CompactWire.Proofs.HandBack — every chunk is handed back, and every loan returned

A transport holds one chunk at most, and hands it back with nothing unread before it asks for the next one; what is left
of the last one goes back when the transport is closed (`Orderly`, `closed_log`).  So the source has all its chunks
back, and so has the pool all its loans once the spans are dropped.

The log of the source, the loans of the pool and what the source counts itself are three ledgers of a transport.  The
last two need to know of the source how many loans it makes, which is proved of every kind of source.
-/

namespace CompactWire

open Outcome

/-! ### The log of the source -/

namespace Transport

/-- The log of a source while a transport holds `held`: all turns before are over, and left nothing unread. -/
inductive Orderly : Option Buffer → List SourceEvent → Prop
  | idle (turns : List Turn) (exhausted : ∀ turn ∈ turns, turn.Exhausted) : Orderly none (turns.flatMap Turn.events)
  | reading (turns : List Turn) (exhausted : ∀ turn ∈ turns, turn.Exhausted) (chunk : Buffer) (taken : Nat) :
    Orderly (some (chunk.skip taken)) (turns.flatMap Turn.events ++ [.chunk chunk])

namespace Orderly

variable {log : List SourceEvent} {chunk : Buffer}

theorem turn (h : Orderly none log) (turn : Turn) (hturn : turn.Exhausted) : Orderly none (log ++ turn.events) := by
  cases h with
  | idle turns hturns =>
    have hall : ∀ t ∈ turns ++ [turn], t.Exhausted :=
      List.forall_mem_append.2 ⟨hturns, List.forall_mem_singleton.2 hturn⟩
    have hidle := Orderly.idle _ hall
    rw [List.flatMap_append, List.flatMap_singleton] at hidle
    exact hidle

theorem read (h : Orderly none log) (chunk : Buffer) : Orderly (some chunk) (log ++ [.chunk chunk]) := by
  cases h with
  | idle turns hturns => exact .reading turns hturns chunk 0

theorem skip (h : Orderly (some chunk) log) (m : Nat) : Orderly (some (chunk.skip m)) log := by
  cases h with
  | reading turns hturns chunk taken =>
    rw [Buffer.skip_skip]
    exact .reading turns hturns chunk (taken + m)

theorem released (h : Orderly (some chunk) log) (hready : chunk.ready = []) :
    Orderly none (log ++ [.released chunk]) := by
  cases h with
  | reading turns hturns chunk taken =>
    have hidle := (Orderly.idle turns hturns).turn (.served chunk taken) hready
    rw [List.append_assoc]
    exact hidle

end Orderly

/-- In a log that is made of turns, chunks are read and handed back by turns. -/
theorem alternating (turns : List Turn) {log : List SourceEvent} (h : log <+: turns.flatMap Turn.events) :
    log.countP SourceEvent.isRelease ≤ log.countP SourceEvent.isChunk ∧
      log.countP SourceEvent.isChunk ≤ log.countP SourceEvent.isRelease + 1 := by
  induction turns generalizing log with
  | nil =>
    obtain rfl := List.prefix_nil.1 h
    exact ⟨Nat.le_refl _, Nat.zero_le _⟩
  | cons turn turns ih =>
    rw [List.flatMap_cons] at h
    cases turn with
    | ended | failed =>
      rcases List.prefix_cons_iff.1 h with rfl | ⟨rest, rfl, hrest⟩
      · exact ⟨Nat.le_refl _, Nat.zero_le _⟩
      · have hcount := @ih rest hrest
        simpa [SourceEvent.isRelease, SourceEvent.isChunk] using hcount
    | served chunk taken =>
      rcases List.prefix_cons_iff.1 h with rfl | ⟨rest, rfl, hrest⟩
      · exact ⟨Nat.le_refl _, Nat.zero_le _⟩
      rcases List.prefix_cons_iff.1 hrest with rfl | ⟨rest', rfl, hrest'⟩
      · exact ⟨Nat.zero_le _, Nat.le_refl _⟩
      · have hcount := @ih rest' hrest'
        simp only [List.countP_cons, SourceEvent.isRelease, SourceEvent.isChunk, if_true, Bool.false_eq_true, if_false]
        omega

variable {σ : Type} [Source σ]

theorem ledger_log : Ledger fun (_ : Nat) (t : Transport (Logged σ)) => Orderly t.held t.source.log where
  skip m h := h.skip m
  handBack hready h := h.released hready
  readChunk {n t} hheld h := by
    rw [hheld] at h
    show Orderly (t.received (Logged.readChunk t.chunkSize.val (t.source, t.pool))).held
      (t.received (Logged.readChunk t.chunkSize.val (t.source, t.pool))).source.log
    unfold Logged.readChunk
    dsimp only
    generalize Source.readChunk t.chunkSize.val (t.source.source, t.pool) = o
    match o with
    | .ok (some chunk) (source, pool) => exact h.read chunk
    | .ok none (source, pool) => exact h.turn .ended trivial
    | .error fault (source, pool) =>
      dsimp only [received]
      rw [hheld]
      exact h.turn (.failed fault) trivial
  alloc _ h := h
  giveBack _ h := h

/-- The log of a transport that is closed is made of turns. -/
theorem closed_log {t : Transport (Logged σ)} (h : Orderly t.held t.source.log) :
    ∃ turns : List Turn, t.close.source.log = turns.flatMap Turn.events := by
  unfold Transport.close
  generalize hlog : t.source.log = log at h
  split <;> rename_i hheld <;> rw [hheld] at h
  · cases h with
    | idle turns => exact ⟨turns, hlog⟩
  · rename_i chunk
    cases h with
    | reading turns _ chunk taken =>
      refine ⟨turns ++ [.served chunk taken], ?_⟩
      show t.source.log ++ [.released (chunk.skip taken)] = _
      rw [hlog, List.flatMap_append, List.flatMap_singleton, List.append_assoc]
      rfl

end Transport

/-! ### Loans and what sources count -/

namespace Source

/-- How many chunks there are. -/
def chunks (chunk : Option Buffer) : Nat := chunk.elim 0 fun _ => 1

/-- A call for a chunk leaves no loan behind but the chunk. -/
def KeepsNoBuffer (σ : Type) [Source σ] : Prop := ∀ (max : Nat) (s : σ) (p : Pool),
  Ends (fun chunk state => state.2.outstanding = p.outstanding + chunks chunk)
    (fun state => state.2.outstanding = p.outstanding) (Source.readChunk max (s, p))

/-- A source counts the chunks that are read and not handed back. -/
structure Counts {σ : Type} [Source σ] (count : σ → Nat) : Prop where
  readChunk (max : Nat) (s : σ) (p : Pool) :
    Ends (fun chunk state => count state.1 = count s + chunks chunk) (fun state => count state.1 = count s)
      (Source.readChunk max (s, p))
  release (b : Buffer) (s : σ) : count (Source.release b s) = count s - 1

end Source

namespace MemorySource

theorem keepsNoBuffer : Source.KeepsNoBuffer MemorySource := by
  intro max s p
  show Ends _ _ (MemorySource.readChunk max (s, p))
  unfold readChunk
  dsimp only
  split
  · rfl
  · exact (p.counts_alloc _).2

theorem counts : Source.Counts MemorySource.outstanding where
  readChunk max s p := by
    show Ends _ _ (MemorySource.readChunk max (s, p))
    unfold MemorySource.readChunk
    dsimp only
    split <;> rfl
  release _ _ := rfl

end MemorySource

/-- A read that fails gives its buffer back. -/
theorem FileSource.keepsNoBuffer : Source.KeepsNoBuffer FileSource := by
  intro max s p
  have hloan := (p.counts_alloc (min s.remaining max)).2
  have hback : ∀ b, ((p.alloc (min s.remaining max)).2.release b).outstanding = p.outstanding := fun b => by
    rw [Pool.outstanding_release, hloan, Nat.add_sub_cancel]
  show Ends _ _ (FileSource.readChunk max (s, p))
  unfold readChunk
  dsimp only
  split
  · rfl
  · split
    · exact hback _
    · split
      · exact hback _
      · split
        · exact hloan
        · exact hback _

theorem ScriptSource.keepsNoBuffer : Source.KeepsNoBuffer ScriptSource := by
  intro max s p
  show Ends _ _ (ScriptSource.readChunk max (s, p))
  unfold readChunk
  dsimp only
  split
  · rfl
  · split
    · rfl
    · rfl
    · exact (p.counts_alloc _).2

namespace Transport

variable {σ : Type} [Source σ] {n start : Nat} {t : Transport σ}

omit [Source σ] in
/-- A number that grows with every chunk that is read keeps in step with the chunk that is held. -/
theorem chunks_received {q : σ × Pool → Nat} {k : Nat} {o : EStateM.Result IoFault (σ × Pool) (Option Buffer)}
    (hheld : t.held = none) (h : q (t.source, t.pool) = k)
    (ho : Ends (fun chunk state => q state = q (t.source, t.pool) + Source.chunks chunk)
      (fun state => q state = q (t.source, t.pool)) o) :
    q ((t.received o).source, (t.received o).pool) = k + Source.chunks (t.received o).held := by
  cases o with
  | ok chunk state => exact ho.trans (congrArg (· + Source.chunks chunk) h)
  | error fault state =>
    show q state = k + Source.chunks t.held
    rw [hheld]
    exact ho.trans h

theorem ledger_outstanding (hs : Source.KeepsNoBuffer σ) (start : Nat) :
    Ledger fun n (t : Transport σ) => t.pool.outstanding = start + Source.chunks t.held + n where
  skip _ h := h
  handBack {n t chunk} _ h := by
    show (t.pool.release chunk).outstanding = start + 0 + n
    have h : t.pool.outstanding = start + 1 + n := h
    rw [Pool.outstanding_release]
    omega
  readChunk {n t} hheld h := by
    rw [hheld] at h
    have hreceived := chunks_received (q := fun state => state.2.outstanding) hheld h
      (hs t.chunkSize.val t.source t.pool)
    exact hreceived.trans (Nat.add_right_comm _ _ _)
  alloc length h := by
    show (Pool.alloc _ length).2.outstanding = _
    rw [(Pool.counts_alloc _ _).2, h]
    rfl
  giveBack b h := by
    show (Pool.release _ b).outstanding = _
    rw [Pool.outstanding_release, h]
    rfl

theorem ledger_count {count : σ → Nat} (hs : Source.Counts count) (start : Nat) :
    Ledger fun (_ : Nat) (t : Transport σ) => count t.source = start + Source.chunks t.held where
  skip _ h := h
  handBack {n t chunk} _ h := by
    show count (Source.release chunk t.source) = start + 0
    have h : count t.source = start + 1 := h
    rw [hs.release]
    omega
  readChunk {n t} hheld h := by
    rw [hheld] at h
    exact chunks_received (q := fun state => count state.1) hheld h (hs.readChunk t.chunkSize.val t.source t.pool)
  alloc _ h := h
  giveBack _ h := h

/-! ### The end of a session -/

theorem outstanding_close (h : t.pool.outstanding = start + Source.chunks t.held + n) :
    t.close.pool.outstanding = start + n := by
  unfold Transport.close
  split <;> rename_i hheld <;> rw [hheld] at h
  · exact h
  · rename_i chunk
    show (t.pool.release chunk).outstanding = start + n
    have h : t.pool.outstanding = start + 1 + n := h
    rw [Pool.outstanding_release]
    omega

theorem count_close {count : σ → Nat} (hs : Source.Counts count) (h : count t.source = start + Source.chunks t.held) :
    count t.close.source = start := by
  unfold Transport.close
  split <;> rename_i hheld <;> rw [hheld] at h
  · exact h
  · rename_i chunk
    show count (Source.release chunk t.source) = start
    rw [hs.release, h]
    rfl

/-- Spans that are dropped give their loans back, and nothing else changes. -/
theorem drop_spans (order : List TransportSpan) (t : Transport σ) :
    ∃ p, order.foldl (fun t span => Input.release span t) t = { t with pool := p } ∧
      p.outstanding = t.pool.outstanding - TransportSpan.loansOf order := by
  induction order generalizing t with
  | nil => exact ⟨t.pool, rfl, rfl⟩
  | cons span order ih =>
    obtain ⟨p, hdropped, hp⟩ := ih (Input.release span t)
    rw [List.foldl_cons, hdropped]
    cases span with
    | borrowed => exact ⟨p, rfl, hp⟩
    | assembled b =>
      refine ⟨p, rfl, ?_⟩
      have hback : (Input.release (TransportSpan.assembled b) t).pool.outstanding = t.pool.outstanding - 1 :=
        t.pool.outstanding_release b
      rw [hp, hback, Nat.sub_sub, Nat.add_comm]
      rfl

end Transport

/-! ### Whole sessions -/

namespace Transport

variable {σ : Type} [Source σ]

/-- What becomes of the chunks and loans of a transport over `s` that is used so, then closed, and its spans dropped. -/
structure HandsBack (s : σ) (pool : Pool) (chunkSize : PosSize) (uses : List Use) : Prop where
  /-- The log is one of just these uses. -/
  same : (watched s pool chunkSize uses).view Logged.source = history s pool chunkSize uses
  /-- As long as the transport is open, a chunk that was handed back was exhausted, and was handed back before the next
  one was asked for; one that is not yet handed back is the one that is held. -/
  orderly : Orderly (watched s pool chunkSize uses).transport.held (watched s pool chunkSize uses).transport.source.log
  /-- Once it is closed, every chunk was handed back. -/
  closed : ∃ turns : List Turn,
    (watched s pool chunkSize uses).transport.close.source.log = turns.flatMap Turn.events
  /-- At no time is more than one chunk out. -/
  one : ∀ log, log <+: (watched s pool chunkSize uses).transport.close.source.log →
    log.countP SourceEvent.isRelease ≤ log.countP SourceEvent.isChunk ∧
      log.countP SourceEvent.isChunk ≤ log.countP SourceEvent.isRelease + 1
  /-- All loans are back, in whatever order the spans are dropped. -/
  loans : Source.KeepsNoBuffer σ → ∀ order : List TransportSpan, order.Perm (history s pool chunkSize uses).spans →
    ((history s pool chunkSize uses).finish order).pool.outstanding = pool.outstanding

theorem handsBack (s : σ) (pool : Pool) (chunkSize : PosSize) (uses : List Use) :
    HandsBack s pool chunkSize uses := by
  have hempty : Orderly none [] := .idle [] fun _ h => absurd h List.not_mem_nil
  have horderly := ledger_log.history { source := s } pool chunkSize uses hempty
  obtain ⟨turns, hturns⟩ := closed_log horderly
  refine ⟨(history_view Logged.view _ _ _ _).symm, horderly, ⟨turns, hturns⟩, fun log hlog => ?_,
    fun hs order horder => ?_⟩
  · unfold watched at hlog
    rw [hturns] at hlog
    exact alternating turns hlog
  · have hhistory := (ledger_outstanding hs pool.outstanding).history s pool chunkSize uses rfl
    -- with the held chunk gone, what is out is with the spans
    have hclosed := outstanding_close hhistory
    obtain ⟨p, hdropped, hp⟩ := drop_spans order (history s pool chunkSize uses).transport.close
    unfold InUse.finish
    rw [hdropped]
    show p.outstanding = pool.outstanding
    rw [hp, hclosed, TransportSpan.loansOf_perm horder, Nat.add_sub_cancel]

theorem count_finish {count : σ → Nat} (hs : Source.Counts count) (s : σ) (pool : Pool) (chunkSize : PosSize)
    (uses : List Use) (order : List TransportSpan) :
    count ((history s pool chunkSize uses).finish order).source = count s := by
  have hhistory := (ledger_count hs (count s)).history s pool chunkSize uses rfl
  obtain ⟨p, hdropped, -⟩ := drop_spans order (history s pool chunkSize uses).transport.close
  unfold InUse.finish
  rw [hdropped]
  exact count_close hs hhistory

/-- A script with an empty chunk, a fault and bytes behind the end of the stream. -/
def interrupted : ScriptSource where
  items := [.chunk [1, 2], .chunk [3], .chunk [], .fault .truncated, .chunk [4, 5, 6], .endOfStream, .chunk [7]]

/-- Of the spans one is assembled, one finds the empty chunk, one is borrowed and one fails half-way. -/
def interruptions : List Use := [.byte, .span 2, .span 1, .byte, .span 2, .span 3, .byte]

end Transport

end CompactWire

import CompactWire.Proofs.Outcome
import CompactWire.Source.Logged
import CompactWire.Transport.Use

/-!
# CompactWire.Proofs.Watched — a source that is watched behaves as it is

Through a `Source.View` one source looks like another: both give the same chunks.  A transport cannot tell them apart,
so it does the same with both (`history_view`).  In particular a source with a log is used as the source without it.
-/

namespace CompactWire

open Outcome

/-- Through `f` a source looks like another one. -/
structure Source.View {σ τ : Type} [Source σ] [Source τ] (f : σ → τ) : Prop where
  readChunk (max : Nat) (s : σ) (p : Pool) :
    Source.readChunk max (f s, p) = onState (Prod.map f id) (Source.readChunk max (s, p))
  release (b : Buffer) (s : σ) : Source.release b (f s) = f (Source.release b s)

/-- A log does not change the source. -/
theorem Logged.view {σ : Type} [Source σ] : Source.View (Logged.source (σ := σ)) where
  readChunk max s p := by
    show _ = onState _ (Logged.readChunk max (s, p))
    unfold Logged.readChunk
    dsimp only
    generalize Source.readChunk max (s.source, p) = o
    match o with
    | .ok (some chunk) (source, pool) => rfl
    | .ok none (source, pool) => rfl
    | .error fault (source, pool) => rfl
  release _ _ := rfl

namespace Transport

variable {σ τ : Type} {f : σ → τ}

/-- A transport whose source is looked at through `f`. -/
def view (f : σ → τ) (t : Transport σ) : Transport τ :=
  { source := f t.source, pool := t.pool, chunkSize := t.chunkSize, held := t.held }

@[simp] theorem held_view (t : Transport σ) : (t.view f).held = t.held := rfl

@[simp] theorem buffered_view (t : Transport σ) : (t.view f).buffered = t.buffered := rfl

variable [Source σ] [Source τ] (hf : Source.View f)
include hf

theorem handBack_view (chunk : Buffer) (t : Transport σ) : handBack chunk (t.view f) = (handBack chunk t).view f := by
  unfold handBack view giveBack
  dsimp only
  rw [hf.release]

theorem close_view (t : Transport σ) : (t.view f).close = t.close.view f := by
  unfold close
  rw [held_view]
  cases t.held with
  | none => rfl
  | some chunk => exact handBack_view hf chunk { t with held := none }

theorem refill_view (t : Transport σ) : refill (t.view f) = onState (view f) (refill t) := by
  unfold refill
  dsimp only
  rw [close_view hf]
  generalize t.close = t
  have hread : Source.readChunk (t.view f).chunkSize.val ((t.view f).source, (t.view f).pool) =
      onState (Prod.map f id) (Source.readChunk t.chunkSize.val (t.source, t.pool)) :=
    hf.readChunk t.chunkSize.val t.source t.pool
  rw [hread]
  cases Source.readChunk t.chunkSize.val (t.source, t.pool) with
  | error fault state => rfl
  | ok chunk state =>
    cases chunk with
    | none => rfl
    | some chunk =>
      have hback := handBack_view hf chunk { t with source := state.1, pool := state.2 }
      by_cases h0 : chunk.length = 0
      · simp only [onState, Prod.map, if_pos h0]
        exact congrArg _ hback
      · simp only [onState, Prod.map, if_neg h0]
        rfl

theorem fill_view (t : Transport σ) : fill (t.view f) = onState (view f) (fill t) := by
  unfold fill
  rw [buffered_view]
  by_cases h0 : t.buffered = 0
  · rw [if_pos h0, if_pos h0]
    exact refill_view hf t
  · rw [if_neg h0, if_neg h0]
    rfl

theorem fillCounted_view (chunks : Nat) (t : Transport σ) :
    fillCounted chunks (t.view f) = onState (view f) (fillCounted chunks t) := by
  unfold fillCounted
  rw [fill_view hf]
  cases fill t with
  | error e t => rfl
  | ok _ t' =>
    have hdue : (t.view f).due = t.due := rfl
    dsimp only [onState]
    rw [hdue]
    by_cases hcount : maxCount < chunks + t.due
    · rw [if_pos hcount, if_pos hcount]
    · rw [if_neg hcount, if_neg hcount]

theorem assembleInto_view (length : Nat) : ∀ (rounds chunks : Nat) (b : Buffer) (t : Transport σ),
    assembleInto length rounds chunks b (t.view f) = onState (view f) (assembleInto length rounds chunks b t)
  | 0, _, _, _ => rfl
  | rounds + 1, chunks, b, t => by
    unfold assembleInto
    by_cases hlength : length ≤ b.length
    · simp only [if_pos hlength]
      rfl
    · simp only [if_neg hlength]
      rw [fillCounted_view hf]
      generalize fillCounted chunks t = o
      cases o with
      | error e t => rfl
      | ok chunks t =>
        dsimp only [onState]
        rw [held_view]
        cases hheld : t.held with
        | none => rfl
        | some chunk =>
          dsimp only
          by_cases hwanted : min (length - b.length) (min chunk.length b.room) = 0
          · simp only [if_pos hwanted]
          · simp only [if_neg hwanted]
            generalize b.put (chunk.ready.take (min (length - b.length) (min chunk.length b.room))) = put
            cases chunk.advance put.1 with
            | error fault => rfl
            | ok chunk => exact assembleInto_view length rounds chunks put.2 { t with held := some chunk }

theorem assemble_view (length : Nat) (t : Transport σ) :
    assemble length (t.view f) = onState (view f) (assemble length t) := by
  have hassemble : assembleInto length length 0 ((t.view f).pool.alloc length).1
      { t.view f with pool := ((t.view f).pool.alloc length).2 } =
        onState (view f) (assembleInto length length 0 (t.pool.alloc length).1
          { t with pool := (t.pool.alloc length).2 }) :=
    assembleInto_view hf length length 0 (t.pool.alloc length).1 { t with pool := (t.pool.alloc length).2 }
  unfold assemble
  dsimp only at hassemble ⊢
  rw [hassemble]
  cases assembleInto length length 0 (t.pool.alloc length).1 { t with pool := (t.pool.alloc length).2 } with
  | error e t => rfl
  | ok b t =>
    dsimp only [onState]
    by_cases hlen : b.length = length
    · simp only [if_pos hlen]
    · simp only [if_neg hlen]
      rfl

theorem readByte_view (t : Transport σ) : readByte (t.view f) = onState (view f) (readByte t) := by
  refine onState_bind (fill_view hf t) fun _ t => onState_get ?_
  rw [held_view]
  cases t.held with
  | none => rfl
  | some chunk =>
    dsimp only
    cases chunk.next <;> rfl

theorem readSpan_view (length : Nat) (t : Transport σ) :
    readSpan length (t.view f) = onState (view f) (readSpan length t) := by
  unfold readSpan
  by_cases h0 : length = 0
  · simp only [if_pos h0]
    rfl
  · simp only [if_neg h0]
    refine onState_bind (fill_view hf t) fun _ t => onState_get ?_
    rw [buffered_view, held_view]
    by_cases hlt : t.buffered < length
    · simp only [if_pos hlt]
      exact onState_bind (assemble_view hf length t) fun _ _ => rfl
    · simp only [if_neg hlt]
      cases t.held with
      | none => rfl
      | some chunk =>
        dsimp only
        cases chunk.consume length <;> rfl

/-- The transport is looked at through `f`; the spans are the same. -/
def InUse.view {σ τ : Type} (f : σ → τ) (u : InUse σ) : InUse τ := { transport := u.transport.view f, spans := u.spans }

theorem after_view (u : InUse σ) (use : Use) : (u.view f).after use = (u.after use).view f := by
  unfold InUse.after
  cases use with
  | byte =>
    have hbyte : readByte (u.view f).transport = onState (view f) (readByte u.transport) :=
      readByte_view hf u.transport
    dsimp only
    rw [hbyte]
    cases readByte u.transport <;> rfl
  | span length =>
    have hspan : readSpan length (u.view f).transport = onState (view f) (readSpan length u.transport) :=
      readSpan_view hf length u.transport
    dsimp only
    rw [hspan]
    cases readSpan length u.transport <;> rfl
  | drop index =>
    have hspans : (u.view f).spans = u.spans := rfl
    dsimp only
    rw [hspans]
    cases u.spans[index]? with
    | none => rfl
    | some span => cases span <;> rfl

/-- **What a transport does with its source is the same if it is watched.** -/
theorem history_view (s : σ) (pool : Pool) (chunkSize : PosSize) (uses : List Use) :
    history (f s) pool chunkSize uses = (history s pool chunkSize uses).view f := by
  have hrun : ∀ u : InUse σ, uses.foldl InUse.after (u.view f) = (uses.foldl InUse.after u).view f := by
    induction uses with
    | nil => exact fun _ => rfl
    | cons use uses ih =>
      intro u
      rw [List.foldl_cons, List.foldl_cons, after_view hf]
      exact ih _
  exact hrun { transport := { source := s, pool, chunkSize } }

/-- A history with a log of the source. -/
def watched (s : σ) (pool : Pool) (chunkSize : PosSize) (uses : List Use) : InUse (Logged σ) :=
  history { source := s } pool chunkSize uses

end Transport

end CompactWire

import Mathlib.Data.List.Perm.Basic
import CompactWire.Proofs.Outcome
import CompactWire.Transport.Use

/-!
# CompactWire.Proofs.Ledger — what a transport keeps whatever happens

Whatever a transport does is made of a few moves: bytes of the held chunk are taken, an exhausted chunk is handed back,
the next one is asked for, a loan of the pool begins or ends.  A `Ledger` is something said of a transport, and of how
many loans are with others, that these moves keep.  Reading bytes and spans keeps every ledger, in success and in
failure, and so do whole histories (`Ledger.history`).

A span that fails half-way has given its buffer back, so it leaves no loan; one that succeeds leaves a loan with its
holder if it is a copy.
-/

namespace CompactWire

open Outcome

namespace Buffer

theorem skip_skip (m n : Nat) (b : Buffer) : (b.skip m).skip n = b.skip (m + n) := by
  simp only [skip, List.take_add, List.reverse_append, List.append_assoc, List.drop_drop]

theorem eq_skip_of_next {b b' : Buffer} {x : UInt8} (h : b.next = .ok (x, b')) : b' = b.skip 1 := by
  unfold next at h
  split at h
  · cases h
  · rename_i byte ready hready
    cases h
    simp [skip, hready]

theorem eq_skip_of_advance {b b' : Buffer} {n : Nat} (h : b.advance n = .ok b') : b' = b.skip n := by
  unfold advance at h
  split at h <;> cases h
  rfl

theorem eq_skip_of_consume {b b' : Buffer} {bytes : Bytes} {n : Nat} (h : b.consume n = .ok (bytes, b')) :
    b' = b.skip n := by
  unfold consume at h
  split at h <;> cases h
  rfl

end Buffer

namespace TransportSpan

/-- The loans that are with the holder of a span. -/
def loans : TransportSpan → Nat
  | borrowed _ => 0
  | assembled _ => 1

/-- The loans that are with the holders of spans. -/
def loansOf : List TransportSpan → Nat
  | [] => 0
  | span :: spans => loansOf spans + span.loans

theorem loansOf_perm {spans spans' : List TransportSpan} (h : spans.Perm spans') : loansOf spans = loansOf spans' := by
  induction h with
  | nil => rfl
  | cons span _ ih => exact congrArg (· + span.loans) ih
  | swap a b spans => exact Nat.add_right_comm _ _ _
  | trans _ _ ih₁ ih₂ => exact ih₁.trans ih₂

end TransportSpan

namespace Transport

variable {σ : Type} {n : Nat} {t : Transport σ}

theorem with_held {o : Option Buffer} (h : t.held = o) : { t with held := o } = t := by
  subst h
  rfl

/-- The transport once its source has answered. -/
def received (t : Transport σ) : EStateM.Result IoFault (σ × Pool) (Option Buffer) → Transport σ
  | .ok chunk (source, pool) => { t with source, pool, held := chunk }
  | .error _ (source, pool) => { t with source, pool }

variable [Source σ]

theorem held_close (t : Transport σ) : t.close.held = none := by
  unfold close
  split
  · assumption
  · rfl

/-- What is said of a transport, and of the number of loans that are with others, and kept by whatever a transport
does. -/
structure Ledger (I : Nat → Transport σ → Prop) : Prop where
  /-- Bytes of the held chunk are taken. -/
  skip {n : Nat} {t : Transport σ} {chunk : Buffer} (m : Nat) :
    I n { t with held := some chunk } → I n { t with held := some (chunk.skip m) }
  /-- An exhausted chunk is handed back. -/
  handBack {n : Nat} {t : Transport σ} {chunk : Buffer} : chunk.ready = [] → I n { t with held := some chunk } →
    I n (handBack chunk { t with held := none })
  /-- A chunk is asked for, none being held. -/
  readChunk {n : Nat} {t : Transport σ} : t.held = none → I n t →
    I n (t.received (Source.readChunk t.chunkSize.val (t.source, t.pool)))
  alloc {n : Nat} {t : Transport σ} (length : Nat) : I n t → I (n + 1) { t with pool := (t.pool.alloc length).2 }
  giveBack {n : Nat} {t : Transport σ} (b : Buffer) : I (n + 1) t → I n (t.giveBack b)

namespace Ledger

variable {I : Nat → Transport σ → Prop} (hI : Ledger I)
include hI

theorem skip_held {chunk : Buffer} (hheld : t.held = some chunk) (m : Nat) (h : I n t) :
    I n { t with held := some (chunk.skip m) } := by
  rw [← with_held hheld] at h
  exact hI.skip m h

theorem close (h : I n t) (h0 : t.buffered = 0) : I n t.close := by
  unfold Transport.close
  split
  · exact h
  · rename_i chunk hheld
    have hready : chunk.ready = [] := by
      unfold buffered at h0
      rw [hheld] at h0
      exact List.eq_nil_of_length_eq_zero h0
    rw [← with_held hheld] at h
    exact hI.handBack hready h

theorem refill (h : I n t) (h0 : t.buffered = 0) : Ends (fun _ => I n) (I n) (refill t) := by
  have hheld := held_close t
  have hread := hI.readChunk hheld (hI.close h h0)
  unfold Transport.refill
  dsimp only
  generalize t.close = t at hheld hread ⊢
  generalize Source.readChunk t.chunkSize.val (t.source, t.pool) = o at hread ⊢
  match o with
  | .error fault (source, pool) => exact hread
  | .ok none (source, pool) =>
    rw [← with_held hheld]
    exact hread
  | .ok (some chunk) (source, pool) =>
    dsimp only
    split
    · -- a chunk without bytes goes back at once, as if it had been held
      rename_i hempty
      rw [hheld]
      exact hI.handBack (t := { t with source, pool }) (List.eq_nil_of_length_eq_zero hempty) hread
    · exact hread

theorem fill (h : I n t) : Ends (fun _ => I n) (I n) (fill t) := by
  unfold Transport.fill
  split
  · rename_i h0
    exact hI.refill h h0
  · exact h

theorem fillCounted (chunks : Nat) (h : I n t) : Ends (fun _ => I n) (I n) (fillCounted chunks t) := by
  have hfill := hI.fill h
  unfold Transport.fillCounted
  generalize Transport.fill t = o at hfill ⊢
  match o with
  | .error e t => exact hfill
  | .ok () t' =>
    dsimp only
    split <;> exact hfill

/-- The buffer that is filled is a loan; it is given back when filling it fails. -/
theorem assembleInto (length : Nat) : ∀ (rounds chunks : Nat) (b : Buffer) {t : Transport σ}, I (n + 1) t →
    Ends (fun _ => I (n + 1)) (I n) (assembleInto length rounds chunks b t)
  | 0, _, _, _, h => h
  | rounds + 1, chunks, b, t, h => by
    -- chunks may have come and gone in earlier rounds, so a round that fails gives back a buffer that holds something
    unfold Transport.assembleInto
    dsimp only
    split
    · exact h
    · have hfill := hI.fillCounted chunks h
      generalize Transport.fillCounted chunks t = o at hfill ⊢
      match o with
      | .error e t => exact hI.giveBack b hfill
      | .ok chunks t =>
        dsimp only
        split
        · exact hI.giveBack b hfill
        · rename_i chunk hheld
          split
          · exact hfill
          · split
            · rename_i chunk' hadvance
              rw [Buffer.eq_skip_of_advance hadvance]
              exact assembleInto length rounds chunks _ (hI.skip_held hheld _ hfill)
            · exact hI.giveBack _ hfill

theorem assemble (length : Nat) (h : I n t) : Ends (fun _ => I (n + 1)) (I n) (assemble length t) := by
  unfold Transport.assemble
  dsimp only
  have hassemble := hI.assembleInto length length 0 (t.pool.alloc length).1 (hI.alloc length h)
  generalize Transport.assembleInto length length 0 (t.pool.alloc length).1 { t with pool := (t.pool.alloc length).2 } = o
    at hassemble ⊢
  match o with
  | .error e t => exact hassemble
  | .ok b t =>
    dsimp only
    split
    · exact hassemble
    · exact hI.giveBack b hassemble

theorem readByte (h : I n t) : Ends (fun _ => I n) (I n) (readByte t) := by
  refine ends_bind (hI.fill h) fun _ t h => ends_get ?_
  cases hheld : t.held with
  | none => exact h
  | some chunk =>
    dsimp only
    cases hnext : chunk.next with
    | error fault => exact h
    | ok next =>
      obtain ⟨byte, chunk'⟩ := next
      rw [Buffer.eq_skip_of_next hnext]
      exact hI.skip_held hheld 1 h

theorem readSpan (length : Nat) (h : I n t) : Ends (fun span => I (n + span.loans)) (I n) (readSpan length t) := by
  unfold Transport.readSpan
  split
  · exact h
  · refine ends_bind (hI.fill h) fun _ t h => ends_get ?_
    split
    · exact ends_bind (hI.assemble length h) fun _ _ h => h
    · cases hheld : t.held with
      | none => exact h
      | some chunk =>
        dsimp only
        cases hconsume : chunk.consume length with
        | error fault => exact h
        | ok consumed =>
          obtain ⟨bytes, chunk'⟩ := consumed
          rw [Buffer.eq_skip_of_consume hconsume]
          exact hI.skip_held hheld length h

theorem release {span : TransportSpan} (h : I (n + span.loans) t) : I n (Input.release span t) := by
  cases span with
  | borrowed => exact h
  | assembled b => exact hI.giveBack b h

theorem after {u : InUse σ} (h : I (TransportSpan.loansOf u.spans) u.transport) (use : Use) :
    I (TransportSpan.loansOf (u.after use).spans) (u.after use).transport := by
  cases use with
  | byte =>
    have hbyte := hI.readByte h
    unfold InUse.after
    dsimp only
    generalize Transport.readByte u.transport = o at hbyte ⊢
    cases o <;> exact hbyte
  | span length =>
    have hspan := hI.readSpan length h
    unfold InUse.after
    dsimp only
    generalize Transport.readSpan length u.transport = o at hspan ⊢
    match o with
    | .ok span t => exact hspan
    | .error e t => exact hspan
  | drop index =>
    unfold InUse.after
    dsimp only
    split
    · exact h
    · rename_i span hspan
      obtain ⟨hindex, rfl⟩ := List.getElem?_eq_some_iff.1 hspan
      rw [← TransportSpan.loansOf_perm (List.getElem_cons_eraseIdx_perm hindex)] at h
      exact hI.release h

/-- **A ledger that is right at the start is right after any history.** -/
theorem history (s : σ) (pool : Pool) (chunkSize : PosSize) (uses : List Use)
    (h : I 0 { source := s, pool, chunkSize }) :
    I (TransportSpan.loansOf (history s pool chunkSize uses).spans) (history s pool chunkSize uses).transport := by
  have hrun : ∀ u : InUse σ, I (TransportSpan.loansOf u.spans) u.transport →
      I (TransportSpan.loansOf (uses.foldl InUse.after u).spans) (uses.foldl InUse.after u).transport := by
    induction uses with
    | nil => exact fun _ h => h
    | cons use uses ih => exact fun u h => ih _ (hI.after h use)
  exact hrun _ h

end Ledger

/-- The size of the chunks stays as it is. -/
theorem ledger_chunkSize (size : PosSize) : Ledger fun _ (t : Transport σ) => t.chunkSize = size where
  skip _ h := h
  handBack _ h := h
  readChunk {n t} _ h := by
    generalize Source.readChunk t.chunkSize.val (t.source, t.pool) = o
    cases o <;> exact h
  alloc _ h := h
  giveBack _ h := h

end Transport

end CompactWire

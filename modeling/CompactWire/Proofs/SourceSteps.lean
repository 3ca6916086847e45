import CompactWire.Proofs.Cells
import CompactWire.Proofs.Outcome
import CompactWire.Source.Steps

/-!
# CompactWire.Proofs.SourceSteps — the steps of sources

`SourceSteps.Faithful` says of steps that they end as the source does, with every check holding, and that the pool stays
intact and lends the chunks.  It holds of the steps of each kind of source (`faithful`), and of those of any other that
leaves the pool intact.  What is asked of the pool for a chunk has as many bytes as the chunk; a source in memory or in
a file never asks for more than it was asked for.
-/

namespace CompactWire

open Outcome

theorem check_of_ok {ε σ α : Type} {x : Checked α} {a : α} {s : σ} (h : x = .ok a) :
    (check x : EStateM (Stop ε) σ α) s = .ok a s := by
  rw [h]
  rfl

/-- A check that holds makes way for what follows. -/
theorem check_bind {ε σ α β : Type} {x : Checked α} {f : α → EStateM (Stop ε) σ β} {a : α} {s : σ} (h : x = .ok a) :
    (check x >>= f) s = f a s := bind_of_ok (check_of_ok h)

/-- The pool is intact, and all requests so far are as they should be. -/
structure Account.Keeps (c : Pool.Config) (P : Nat → Prop) (a : Account) : Prop where
  intact : a.pool.Intact c
  requests : ∀ n ∈ a.requests, P n

namespace Account.Keeps

variable {c : Pool.Config} {P : Nat → Prop} {a : Account} {n : Nat}

theorem alloc (h : a.Keeps c P) (hn : P n) : Account.Keeps c P ⟨(a.pool.alloc n).2, n :: a.requests⟩ :=
  ⟨(h.intact.alloc n).2.2, List.forall_mem_cons.2 ⟨hn, h.requests⟩⟩

theorem release {b : Buffer} (h : a.Keeps c P) (hb : b.Housed c) :
    Account.Keeps c P { a with pool := a.pool.release b } := ⟨h.intact.release hb, h.requests⟩

end Account.Keeps

namespace SourceSteps

variable {σ : Type}

/-- Steps end as the source does, with the pool intact and the chunk lent by it. -/
inductive Pulled (c : Pool.Config) (P : Nat → Prop) :
    EStateM.Result (Stop IoFault) (σ × Account) (Option Cells) → EStateM.Result IoFault (σ × Pool) (Option Buffer) → Prop
  | ok {chunk : Option Buffer} {s : σ} {a : Account} (keeps : a.Keeps c P)
    (housed : ∀ b, chunk = some b → b.Housed c) : Pulled c P (.ok (chunk.map Cells.of) (s, a)) (.ok chunk (s, a.pool))
  | error {fault : IoFault} {s : σ} {a : Account} (keeps : a.Keeps c P) :
    Pulled c P (.error (.error fault) (s, a)) (.error fault (s, a.pool))

/-- The stream is at its end. -/
theorem Pulled.done {c : Pool.Config} {P : Nat → Prop} {s : σ} {a : Account} (h : a.Keeps c P) :
    Pulled c P (.ok none (s, a)) (.ok none (s, a.pool)) :=
  @Pulled.ok σ c P none s a h fun _ hb => nomatch hb

theorem Pulled.chunk {c : Pool.Config} {P : Nat → Prop} {s : σ} {a : Account} {b : Buffer} (h : a.Keeps c P)
    (hb : b.Housed c) : Pulled c P (.ok (some (Cells.of b)) (s, a)) (.ok (some b) (s, a.pool)) := by
  refine @Pulled.ok σ c P (some b) s a h fun b' hb' => ?_
  cases hb'
  exact hb

/-- A step that succeeds makes way for what follows. -/
theorem Pulled.after {α : Type} {c : Pool.Config} {P : Nat → Prop} {x : EStateM (Stop IoFault) (σ × Account) α}
    {f : α → EStateM (Stop IoFault) (σ × Account) (Option Cells)} {t u : σ × Account} {r : α}
    {o : EStateM.Result IoFault (σ × Pool) (Option Buffer)} (hx : x t = .ok r u) (h : Pulled c P (f r u) o) :
    Pulled c P ((x >>= f) t) o := by
  rw [bind_of_ok hx]
  exact h

/-- With chunks of at most `max` bytes, the steps end as the source does, and ask the pool only for what `P` allows. -/
structure Faithful [Source σ] (steps : SourceSteps σ) (c : Pool.Config) (max : Nat) (P : Nat → Prop) : Prop where
  readChunk (s : σ) (a : Account) : a.Keeps c P →
    Pulled c P (steps.readChunk max (s, a)) (Source.readChunk max (s, a.pool))
  release (b : Buffer) (s : σ) : steps.release (Cells.of b) s = .ok (Source.release b s)

/-- The source leaves the pool intact and its chunks are lent by it. -/
def KeepsPool (σ : Type) [Source σ] : Prop := ∀ (c : Pool.Config) (max : Nat) (s : σ) (p : Pool), p.Intact c →
  Ends (fun chunk (t : σ × Pool) => t.2.Intact c ∧ ∀ b, chunk = some b → b.Housed c) (fun t => t.2.Intact c)
    (Source.readChunk max (s, p))

variable {c : Pool.Config} {P : Nat → Prop} {s : σ} {a : Account} {b : Buffer} {n : Nat}

theorem alloc_of (h : a.Keeps c P) (n : Nat) :
    alloc n (s, a) = .ok (Cells.of (a.pool.alloc n).1) (s, ⟨(a.pool.alloc n).2, n :: a.requests⟩) :=
  (bind_of_ok (x := get) (a := (s, a)) rfl).trans (check_bind (Account.alloc_eq h.intact n))

theorem fail_of (h : a.Keeps c P) (hb : b.Housed c) (fault : IoFault) :
    fail (Cells.of b) fault (s, a) = .error (.error fault) (s, { a with pool := a.pool.release b }) := by
  have hgive : giveBack (Cells.of b) (s, a) = .ok () (s, { a with pool := a.pool.release b }) :=
    (bind_of_ok (x := get) (a := (s, a)) rfl).trans (check_bind (Account.giveBack_eq h.intact hb))
  exact bind_of_ok hgive

/-! ### Each kind of source -/

theorem faithful_of [Source σ] (h : KeepsPool σ) (c : Pool.Config) (max : Nat) (P : Nat → Prop) :
    (SourceSteps.of σ).Faithful c max P where
  readChunk s a ha := by
    have hends := h c max s a.pool ha.intact
    unfold SourceSteps.of
    dsimp only
    generalize Source.readChunk max (s, a.pool) = o at hends
    match o, hends with
    | .ok chunk (s', pool), hends => exact .ok (a := { a with pool }) ⟨hends.1, ha.requests⟩ hends.2
    | .error fault (s', pool), hends => exact .error (a := { a with pool }) ⟨hends, ha.requests⟩
  release b s := by
    show Except.ok (Source.release (Cells.of b).buffer s) = _
    rw [Cells.buffer_of]

theorem faithful_memory (c : Pool.Config) {max : Nat} (hP : ∀ n ≤ max, P n) : MemorySource.steps.Faithful c max P where
  readChunk s a ha := by
    refine Pulled.after (x := get) (r := (s, a)) rfl ?_
    show Pulled c P _ (MemorySource.readChunk max (s, a.pool))
    unfold MemorySource.readChunk
    dsimp only
    generalize hlength : min (s.data.length - s.position) (min max s.chunkSize.val) = length
    by_cases h0 : length = 0
    · rw [if_pos h0, if_pos h0]
      exact .done ha
    · rw [if_neg h0, if_neg h0]
      obtain ⟨hlent, hhoused, hintact⟩ := ha.intact.alloc length
      have hkeeps := ha.alloc (hP length (by omega))
      have hslice : Checked.slice s.data s.position (s.position + length) =
          .ok ((s.data.drop s.position).take length) := by
        rw [Checked.slice_eq (by omega) (by omega), List.drop_take]
        congr 2
        omega
      have hput := Cells.put_of (a.pool.alloc length).1 ((s.data.drop s.position).take length)
      refine Pulled.after (alloc_of ha length) (Pulled.after (check_of_ok hslice) (Pulled.after (check_of_ok hput) ?_))
      exact .chunk hkeeps (hhoused.put _)
  release b s := by
    show ((Cells.of b).length >>= fun unread => _) = _
    rw [Cells.length_of]
    rfl

theorem faithful_file (c : Pool.Config) {max : Nat} (hP : ∀ n ≤ max, P n) : FileSource.steps.Faithful c max P where
  readChunk s a ha := by
    refine Pulled.after (x := get) (r := (s, a)) rfl ?_
    show Pulled c P _ (FileSource.readChunk max (s, a.pool))
    unfold FileSource.readChunk
    dsimp only
    generalize hlength : min s.remaining max = length
    by_cases h0 : length = 0
    · rw [if_pos h0, if_pos h0]
      exact .done ha
    · rw [if_neg h0, if_neg h0]
      obtain ⟨hlent, hhoused, hintact⟩ := ha.intact.alloc length
      have hkeeps := ha.alloc (hP length (by omega))
      refine Pulled.after (alloc_of ha length) ?_
      generalize a.pool.alloc length = loan at hlent hhoused hintact hkeeps ⊢
      obtain ⟨chunk, pool⟩ := loan
      dsimp only at *
      by_cases hoffset : 1 <<< 63 ≤ s.position
      · rw [if_pos hoffset, if_pos hoffset, fail_of hkeeps hhoused]
        exact .error (hkeeps.release hhoused)
      · rw [if_neg hoffset, if_neg hoffset]
        generalize hbytes : (s.contents.drop s.position).take length = bytes
        have hle : bytes.length ≤ length := by
          rw [← hbytes]
          exact List.length_take_le _ _
        have hwritten : (chunk.write bytes).Housed c := hhoused.of_eq rfl (Buffer.capacity_after chunk (.write bytes))
        have hwrite := Cells.write_of chunk hlent.room hle
        refine Pulled.after (check_of_ok hwrite) ?_
        by_cases hshort : bytes.length < length
        · rw [if_pos hshort, if_pos hshort, fail_of hkeeps hwritten]
          exact .error (hkeeps.release hwritten)
        · rw [if_neg hshort, if_neg hshort]
          have hinside : length ≤ (chunk.write bytes).spare.written.length := by
            have hroom : bytes.length ≤ chunk.spare.size := Nat.le_trans hle hlent.room
            show length ≤ (chunk.spare.overwrite bytes).written.length
            rw [Cells.overwrite_eq hroom]
            simp only [List.length_append]
            omega
          obtain ⟨b', hcommit, hcommit'⟩ := Cells.commit_of (chunk.write bytes) hinside
          refine Pulled.after (check_of_ok hcommit') ?_
          rw [hcommit]
          have hafter : (Buffer.Call.commit length).after (chunk.write bytes) = b' := by
            show ((chunk.write bytes).commit length).toOption.getD _ = b'
            rw [hcommit]
            rfl
          refine .chunk hkeeps ?_
          rw [← hafter]
          exact hwritten.of_eq (Buffer.sizeClass_after _ _) (Buffer.capacity_after _ _)
  release b s := by
    show ((Cells.of b).length >>= fun unread => _) = _
    rw [Cells.length_of]
    rfl

theorem faithful_script (c : Pool.Config) (max : Nat) (hP : ∀ n, P n) : ScriptSource.steps.Faithful c max P where
  readChunk s a ha := by
    refine Pulled.after (x := get) (r := (s, a)) rfl ?_
    show Pulled c P _ (ScriptSource.readChunk max (s, a.pool))
    unfold ScriptSource.readChunk
    dsimp only
    match s.items with
    | [] => exact .done ha
    | .endOfStream :: items => exact .done ha
    | .fault fault :: items => exact .error ha
    | .chunk bytes :: items =>
      obtain ⟨hlent, hhoused, hintact⟩ := ha.intact.alloc bytes.length
      have hput := Cells.put_of (a.pool.alloc bytes.length).1 bytes
      refine Pulled.after (x := modify _) rfl ?_
      refine Pulled.after (alloc_of ha bytes.length) (Pulled.after (check_of_ok hput) ?_)
      exact .chunk (ha.alloc (hP _)) (hhoused.put bytes)
  release b s := by
    show ((Cells.of b).length >>= fun unread => _) = _
    rw [Cells.length_of]
    rfl

end SourceSteps

end CompactWire

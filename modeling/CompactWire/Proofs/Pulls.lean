import CompactWire.Proofs.Portions
import CompactWire.Proofs.Transports

/-!
# CompactWire.Proofs.Pulls — what a byte or a span costs

`Pulled k n t t'` says that between `t` and `t'` the source served `k` portions, and the pool made a loan for each and
`n` others.  That `k` is no more than it has to be is said by `Takes`: so many chunks hold the bytes that are wanted,
together with those at hand, and fewer do not.  How many bytes are at hand with so many chunks more is the `reach` of a
transport.  A round of assembling keeps all this, so it holds of a span however many chunks it goes over
(`readSpan_costs`).

A byte or a span that is not there leaves a transport with nothing to come, and with a pool as sound as before.  A span
beyond the reach of the chunks that can be counted is broken off, and some of what was to come is still to come
(`Missed`).
-/

namespace CompactWire

open Outcome

/-- The buffer of a span can go back to the pool. -/
def TransportSpan.Homed (c : Pool.Config) : TransportSpan → Prop
  | borrowed _ => True
  | assembled b => b.Homed c

namespace Transport

variable {σ : Type} [Source σ] {At : σ → Bytes → Bytes → Prop} {portion : σ → Nat → Nat} {tally : σ → Nat}
  {c : Pool.Config} {t t' t'' : Transport σ} {d : Bytes} {k k' n n' length : Nat}

/-! ### What is pulled -/

/-- `k` portions were read, each for a loan, and `n` other loans were made. -/
structure Pulled (portion : σ → Nat → Nat) (tally : σ → Nat) (k n : Nat) (t t' : Transport σ) : Prop where
  portion_eq : portion t'.source t'.chunkSize.val = portion t.source t.chunkSize.val
  remaining : Source.remaining t'.source = Source.remaining t.source - k * portion t.source t.chunkSize.val
  tally_eq : tally t'.source = tally t.source + k
  loans : t'.pool.loans = t.pool.loans + k + n

namespace Pulled

theorem refl (t : Transport σ) : Pulled portion tally 0 0 t t :=
  ⟨rfl, by rw [Nat.zero_mul, Nat.sub_zero], rfl, rfl⟩

theorem trans (h : Pulled portion tally k n t t') (h' : Pulled portion tally k' n' t' t'') :
    Pulled portion tally (k + k') (n + n') t t'' where
  portion_eq := h'.portion_eq.trans h.portion_eq
  remaining := by rw [h'.remaining, h.remaining, h.portion_eq, Nat.sub_sub, Nat.add_mul]
  tally_eq := by rw [h'.tally_eq, h.tally_eq, Nat.add_assoc]
  loans := by
    rw [h'.loans, h.loans]
    omega

/-- What becomes of the held chunk makes no difference. -/
theorem holding (h : Pulled portion tally k n t t') (held : Option Buffer) :
    Pulled portion tally k n t { t' with held := held } := ⟨h.portion_eq, h.remaining, h.tally_eq, h.loans⟩

theorem alloc (t : Transport σ) (length : Nat) :
    Pulled portion tally 0 1 t { t with pool := (t.pool.alloc length).2 } :=
  ⟨rfl, by rw [Nat.zero_mul, Nat.sub_zero], rfl, (t.pool.counts_alloc length).1⟩

end Pulled

/-- How many bytes are at hand with `k` chunks more. -/
def reach (portion : σ → Nat → Nat) (k : Nat) (t : Transport σ) : Nat :=
  t.buffered + min (k * portion t.source t.chunkSize.val) (Source.remaining t.source)

/-- Bytes at hand that are taken are at hand no more. -/
theorem reach_skip {chunk : Buffer} {m : Nat} (hheld : t.held = some chunk) (hchunk : m ≤ chunk.length) (k : Nat) :
    reach portion k { t with held := some (chunk.skip m) } + m = reach portion k t := by
  have hbuffered := buffered_of_held hheld
  unfold reach
  rw [buffered_skip hheld]
  dsimp only
  omega

/-- As few chunks were read as hold `length` bytes together with those at hand, and `n` other loans were made. -/
def Takes (portion : σ → Nat → Nat) (tally : σ → Nat) (length n : Nat) (t t' : Transport σ) : Prop :=
  ∃ k, Pulled portion tally k n t t' ∧ ∀ j, k ≤ j ↔ length ≤ t.reach portion j

theorem Takes.at_hand (h : length ≤ t.buffered) (held : Option Buffer) :
    Takes portion tally length 0 t { t with held := held } :=
  ⟨0, (Pulled.refl t).holding held, fun j => ⟨fun _ => Nat.le_add_right_of_le h, fun _ => Nat.zero_le j⟩⟩

/-- Bytes at hand are taken, and then the others. -/
theorem Takes.of_skip {chunk : Buffer} {m : Nat} (hheld : t.held = some chunk) (hchunk : m ≤ chunk.length)
    (h : Takes portion tally (length - m) n { t with held := some (chunk.skip m) } t') :
    Takes portion tally length n t t' := by
  obtain ⟨k, hpulled, hfewest⟩ := h
  refine ⟨k, ⟨hpulled.portion_eq, hpulled.remaining, hpulled.tally_eq, hpulled.loans⟩, fun j => ?_⟩
  rw [hfewest j, ← reach_skip hheld hchunk j]
  exact Nat.sub_le_iff_le_add

/-- Why a span does not come, with `d` to come before.  If it goes `beyond` what can be counted, it is broken off.  If it
does not, it is not there, and nothing is any more. -/
inductive Missed (beyond : Prop) (At : σ → Bytes → Bytes → Prop) (c : Pool.Config) (d : Bytes) :
    Error → Transport σ → Prop
  | short {t' : Transport σ} (h : ¬beyond) (empty : t'.Offers At c []) : Missed beyond At c d .endOfInput t'
  | overflow {t' : Transport σ} (h : beyond) {m : Nat} (rest : t'.Offers At c (d.drop m)) :
    Missed beyond At c d (.aborted .overflow) t'

omit [Source σ] in
/-- Bytes that were taken before make no difference. -/
theorem Missed.drop {beyond beyond' : Prop} {m : Nat} {e : Error} (h : Missed beyond' At c (d.drop m) e t')
    (hbeyond : beyond' ↔ beyond) : Missed beyond At c d e t' := by
  cases h with
  | short h empty => exact .short (mt hbeyond.2 h) empty
  | overflow h rest =>
    rw [List.drop_drop] at rest
    exact .overflow (hbeyond.1 h) rest

section

variable (hs : Source.Portions At portion)
include hs

theorem Offers.length_eq (h : t.Offers At c d) : t.buffered + Source.remaining t.source = d.length := by
  obtain ⟨-, rest, rfl, hat⟩ := h
  rw [hs.remaining_eq hat, buffered_eq, List.length_append]

/-- The chunk that is due is one of those that make up the reach. -/
theorem reach_of_fill (h : t.Offers At c d) (h' : t'.Offers At c d) (hpulled : Pulled portion tally t.due 0 t t')
    (k : Nat) : t.reach portion (t.due + k) = t'.reach portion k := by
  have hbefore := h.length_eq hs
  have hafter := h'.length_eq hs
  have hremaining := hpulled.remaining
  unfold reach
  rw [hpulled.portion_eq, Nat.add_mul]
  by_cases h0 : t.buffered = 0
  · have hdue : t.due = 1 := if_pos h0
    rw [hdue, Nat.one_mul] at hremaining ⊢
    omega
  · have hdue : t.due = 0 := if_neg h0
    rw [hdue, Nat.zero_mul] at hremaining ⊢
    omega

/-- The chunk that is due is read first, and then the others. -/
theorem Takes.of_fill (h : t.Offers At c d) (h' : t'.Offers At c d) (hpulled : Pulled portion tally t.due 0 t t')
    (hlength : 0 < length) (htakes : Takes portion tally length n t' t'') : Takes portion tally length n t t'' := by
  obtain ⟨k, hpulled', hfewest⟩ := htakes
  have hall := hpulled.trans hpulled'
  rw [Nat.zero_add] at hall
  refine ⟨t.due + k, hall, fun j => ?_⟩
  by_cases hj : t.due ≤ j
  · obtain ⟨i, rfl⟩ := Nat.exists_eq_add_of_le hj
    rw [Nat.add_le_add_iff_left, hfewest i, reach_of_fill hs h h' hpulled]
  · -- without the chunk that is due nothing is at hand
    obtain ⟨rfl, h0⟩ : j = 0 ∧ t.buffered = 0 := by
      unfold due at hj
      split at hj <;> omega
    unfold reach
    rw [h0, Nat.zero_mul]
    omega

variable (ht : Source.Tallies tally)
include ht

theorem pulled_close (h : t.Offers At c d) (hu : t.unread = []) : Pulled portion tally 0 0 t t.close := by
  have hclosed := close_of_exhausted hs.toDelivers h hu
  obtain ⟨-, rest, rfl, hat⟩ := h
  rw [hu] at hclosed hat
  refine ⟨?_, ?_, ?_, ?_⟩
  · rw [chunkSize_close]
    unfold Transport.close
    split
    · rfl
    · exact congrFun (hs.portion_release _ _) _
  · rw [hs.remaining_eq hclosed, hs.remaining_eq hat, Nat.zero_mul]
    rfl
  · unfold Transport.close
    split
    · rfl
    · exact ht.release _ _
  · unfold Transport.close
    split
    · rfl
    · exact t.pool.loans_release _

theorem refill_costs (h : t.Offers At c d) (hu : t.unread = []) :
    EndsWith (fun _ t' => t'.Offers At c d ∧ t'.unread ≠ [] ∧ Pulled portion tally 1 0 t t')
      (fun e t' => e = .endOfInput ∧ d = [] ∧ t'.Offers At c d ∧ Pulled portion tally 0 0 t t') (refill t) := by
  have hclosed := close_of_exhausted hs.toDelivers h hu
  have hkept := h.1.close
  have hpulled := pulled_close hs ht h hu
  have hremaining := hs.remaining_eq hclosed
  have htally := ht.readChunk t.close.chunkSize.val t.close.source t.close.pool
  rcases refill_spec hs.toDelivers h hu with ⟨rfl, -⟩ | ⟨-, chunk, s, p, hread, hrefill, hoffers, hready⟩
  · obtain ⟨s, hread, hat, hportion⟩ : ∃ s, Source.readChunk t.close.chunkSize.val (t.close.source, t.close.pool) =
        .ok none (s, t.close.pool) ∧ At s [] [] ∧ portion s = portion t.close.source := hs.ended hclosed
    have htally : tally s = tally t.close.source := by
      rw [hread] at htally
      exact htally
    have hrefill : refill t =
        .error .endOfInput { source := s, pool := t.close.pool, chunkSize := t.close.chunkSize, held := none } := by
      rw [← held_close t]
      unfold refill
      dsimp only
      rw [hread]
    have hended : Pulled portion tally 0 0 t.close
        { source := s, pool := t.close.pool, chunkSize := t.close.chunkSize, held := none } := by
      refine ⟨congrFun hportion _, ?_, htally, rfl⟩
      rw [hremaining, hs.remaining_eq hat]
      exact (Nat.zero_sub _).symm
    rw [hrefill]
    exact ⟨rfl, rfl, hkept.config ▸ offers_opened _ hkept.sound hat, hpulled.trans hended⟩
  · have htally : tally s = tally t.close.source + 1 := by
      rw [hread] at htally
      exact htally
    obtain ⟨hlength, hportion, hloans⟩ := hs.readPortion hclosed hkept.sound hread
    have hserved : Pulled portion tally 1 0 t.close { t.close with source := s, pool := p, held := some chunk } := by
      refine ⟨congrFun hportion _, ?_, htally, hloans⟩
      have hafter : chunk.length + Source.remaining s = d.length := hoffers.length_eq hs
      show Source.remaining s = _
      omega
    rw [hrefill]
    exact ⟨hoffers, hready, hpulled.trans hserved⟩

theorem fill_costs (h : t.Offers At c d) :
    EndsWith (fun _ t' => t'.Offers At c d ∧ t'.unread ≠ [] ∧ Pulled portion tally t.due 0 t t')
      (fun e t' => e = .endOfInput ∧ d = [] ∧ t'.Offers At c d ∧ Pulled portion tally 0 0 t t') (fill t) := by
  unfold fill due
  split
  · rename_i h0
    rw [buffered_eq] at h0
    exact refill_costs hs ht h (List.eq_nil_of_length_eq_zero h0)
  · rename_i h0
    refine ⟨h, fun hu => h0 ?_, .refl t⟩
    rw [buffered_eq, hu]
    rfl

/-! ### Bytes and spans -/

/-- A byte costs no more than the chunk that is due. -/
theorem readByte_costs (h : t.Offers At c d) :
    Ends (fun _ t' => d ≠ [] ∧ t'.Offers At c (d.drop 1) ∧ Pulled portion tally t.due 0 t t')
      (fun t' => d = [] ∧ t'.Offers At c d ∧ Pulled portion tally 0 0 t t') (readByte t) := by
  unfold readByte
  refine ends_bind ((fill_costs hs ht h).ends fun _ _ h => h.2) ?_
  rintro _ t' ⟨hoffers, hunread, hpulled⟩
  obtain ⟨chunk, hheld, hready⟩ := exists_held hunread
  obtain ⟨hd, hskip⟩ := Offers.skip hs.toDelivers hoffers hheld (List.length_pos_iff.2 hready)
  refine ends_get ?_
  rw [hheld]
  cases hbytes : chunk.ready with
  | nil => exact absurd hbytes hready
  | cons b bytes =>
    dsimp only
    rw [Buffer.next_eq hbytes]
    refine ⟨?_, hskip, hpulled.holding _⟩
    rintro rfl
    rw [hbytes] at hd
    cases hd

/-- What is missing is taken, or all that there is.  It is broken off just if it goes beyond what can be reached with as
many chunks as can still be counted. -/
theorem assembleInto_costs : ∀ (rounds missing chunks : Nat) {b : Buffer} {t : Transport σ} {d : Bytes},
    t.Offers At c d → b.Lacks c length missing → missing ≤ rounds → chunks ≤ maxCount →
    EndsWith
      (fun b' t' => t'.Offers At c (d.drop missing) ∧ b'.Lacks c length 0 ∧ Takes portion tally missing 0 t t' ∧
        missing ≤ t.reach portion (maxCount - chunks))
      (Missed (t.reach portion (maxCount - chunks) < min missing d.length) At c d)
      (assembleInto length rounds chunks b t)
  | rounds, 0, chunks, b, t, d, h, hb, _, _ => by
    rw [assembleInto_full rounds chunks t (Nat.le_of_eq hb.length_eq.symm)]
    exact ⟨h, hb, .at_hand (Nat.zero_le _) t.held, Nat.zero_le _⟩
  | 0, missing + 1, _, _, _, _, _, _, hm, _ => absurd hm (Nat.not_succ_le_zero missing)
  | rounds + 1, missing + 1, chunks, b, t, d, h, hb, hm, hchunks => by
    have hlength := hb.length_eq
    have hlt : b.length < length := by omega
    have hfill := fill_costs hs ht h
    cases ho : fill t with
    | error e t' =>
      rw [ho] at hfill
      obtain ⟨rfl, rfl, hoffers, -⟩ := hfill
      rw [round_error rounds chunks ho hlt]
      exact .short (by simp) (hoffers.giveBack hb.homed)
    | ok _ t' =>
      rw [ho] at hfill
      obtain ⟨hoffers, hunread, hpulled⟩ := hfill
      by_cases hcount : maxCount < chunks + t.due
      · -- nothing is at hand, and no chunk more can be counted
        have hd : 0 < d.length := by
          have hpos := List.length_pos_iff.2 hunread
          have hafter := hoffers.length_eq hs
          rw [buffered_eq] at hafter
          omega
        have hbeyond : t.reach portion (maxCount - chunks) < min (missing + 1) d.length := by
          unfold due at hcount
          split at hcount
          · rename_i h0
            unfold reach
            rw [h0, show maxCount - chunks = 0 by omega, Nat.zero_mul]
            omega
          · omega
        rw [round_overflow rounds ho hlt hcount]
        exact .overflow hbeyond (m := 0) (hoffers.giveBack hb.homed)
      obtain ⟨chunk, hheld, hready⟩ := exists_held hunread
      obtain ⟨n, b', hpos, hn, hchunk, hle, -, hb', hoffers', hround⟩ :=
        round_spec hs.toDelivers rounds ho (Nat.not_lt.1 hcount) hoffers hheld hready hb (Nat.succ_pos _)
      rw [hround]
      -- behind this round as many bytes less are missing as are in reach less
      have hreach : reach portion (maxCount - (chunks + t.due)) { t' with held := some (chunk.skip n) } + n =
          t.reach portion (maxCount - chunks) := by
        rw [reach_skip hheld hchunk, ← reach_of_fill hs h hoffers hpulled]
        congr 1
        omega
      refine (assembleInto_costs rounds (missing + 1 - n) (chunks + t.due) hoffers' hb' (by omega)
        (Nat.not_lt.1 hcount)).mono ?_ fun e t'' h => h.drop (by rw [List.length_drop]; omega)
      rintro b'' t'' ⟨hoffers'', hb'', htakes, hwithin⟩
      rw [List.drop_drop, Nat.add_sub_cancel' hn] at hoffers''
      exact ⟨hoffers'', hb'', .of_fill hs h hoffers hpulled (Nat.succ_pos _) (.of_skip hheld hchunk htakes), by omega⟩

theorem assemble_costs (h : t.Offers At c d) :
    EndsWith
      (fun b t' => t'.Offers At c (d.drop length) ∧ b.Homed c ∧ Takes portion tally length 1 t t' ∧
        length ≤ t.reach portion maxCount)
      (Missed (t.reach portion maxCount < min length d.length) At c d) (assemble length t) := by
  have hlent := Pool.lent_alloc h.1.sound length
  have hloan : Pulled portion tally 0 1 t { t with pool := (t.pool.alloc length).2 } := .alloc t length
  rw [h.1.config] at hlent
  unfold assemble
  generalize t.pool.alloc length = loan at hlent hloan ⊢
  obtain ⟨b, p⟩ := loan
  have hinto := assembleInto_costs hs ht length length 0 (h.withPool hlent.sound hlent.config) hlent.lacks
    (Nat.le_refl _) (Nat.zero_le _)
  unfold withPool at hinto
  dsimp only at hinto hloan ⊢
  generalize assembleInto length length 0 b { t with pool := p } = o at hinto ⊢
  match o with
  | .error e t' => exact hinto
  | .ok b' t' =>
    obtain ⟨hoffers, hb', ⟨k, hpulled, hfewest⟩, hwithin⟩ := hinto
    dsimp only
    rw [if_pos (show b'.length = length from hb'.length_eq)]
    have hall := hloan.trans hpulled
    rw [Nat.zero_add] at hall
    exact ⟨hoffers, hb'.homed, ⟨k, hall, hfewest⟩, hwithin⟩

/-- **A span costs as few chunks as can be**, and another loan if the chunk at hand, or the next one if there is none,
does not hold all of it.  It is broken off just if it goes beyond the chunks that can be counted behind the first. -/
theorem readSpan_costs (h : t.Offers At c d) (hlength : 0 < length) :
    EndsWith (fun span t' => t'.Offers At c (d.drop length) ∧ span.Homed c ∧
      (Input.borrowed (Transport σ) span = true ↔ length ≤ t.buffered ∨ t.buffered = 0 ∧ length ≤ t.reach portion 1) ∧
      Takes portion tally length span.loans t t' ∧ length ≤ t.reach portion (t.due + maxCount))
      (Missed (t.reach portion (t.due + maxCount) < min length d.length) At c d) (readSpan length t) := by
  have hbefore := h.length_eq hs
  unfold readSpan
  rw [if_neg (Nat.ne_of_gt hlength)]
  have hfill := fill_costs hs ht h
  cases ho : fill t with
  | error e t' =>
    rw [ho] at hfill
    obtain ⟨rfl, rfl, hoffers, -⟩ := hfill
    rw [bind_of_error ho]
    exact .short (by simp) hoffers
  | ok _ t' =>
  rw [ho] at hfill
  obtain ⟨hoffers, hunread, hpulled⟩ := hfill
  have hreach := reach_of_fill hs h hoffers hpulled
  rw [bind_of_ok ho, hreach]
  have hafter := hoffers.length_eq hs
  have hborrowed : length ≤ t'.buffered ↔ length ≤ t.buffered ∨ t.buffered = 0 ∧ length ≤ t.reach portion 1 := by
    have hnone := hreach 0
    unfold reach at hnone ⊢
    unfold due at hnone
    rw [Nat.zero_mul, Nat.zero_min, Nat.add_zero] at hnone
    split at hnone <;> omega
  refine endsWith_get ?_
  by_cases hlt : t'.buffered < length
  · rw [if_pos hlt]
    refine endsWith_bind (assemble_costs hs ht hoffers) ?_
    rintro b t'' ⟨hoffers', hb, htakes, hwithin⟩
    refine ⟨hoffers', hb, ?_, .of_fill hs h hoffers hpulled hlength htakes, hwithin⟩
    rw [← hborrowed]
    exact ⟨fun h => (by cases h), fun h => absurd hlt (Nat.not_lt.2 h)⟩
  · have hle := Nat.not_lt.1 hlt
    obtain ⟨chunk, hheld, -⟩ := exists_held hunread
    have hn : length ≤ chunk.length := buffered_of_held hheld ▸ hle
    rw [if_neg hlt, hheld]
    dsimp only
    rw [Buffer.consume_eq hn]
    refine ⟨(Offers.skip hs.toDelivers hoffers hheld hn).2, trivial, ?_,
      .of_fill hs h hoffers hpulled hlength (.at_hand hle _), Nat.le_add_right_of_le hle⟩
    rw [← hborrowed]
    exact ⟨fun _ => hle, fun _ => rfl⟩

end

end Transport

end CompactWire

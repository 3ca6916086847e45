import CompactWire.Proofs.Ledger
import CompactWire.Proofs.Outcome
import CompactWire.Proofs.Presents
import CompactWire.Proofs.Streams
import CompactWire.Transport

/-!
# CompactWire.Proofs.Transports — a transport presents the stream of its source

What a transport has to come is what is unread of the chunk that it holds and what the source has behind it
(`Transport.Offers`).  Handing back an exhausted chunk and reading the next one does not change this (`refill_spec`),
and bytes and spans are taken from its front, whether they lie in a chunk or have to be assembled from several
(`presents`).  None of it depends on what the pool lends, so another user of the pool may have changed it in between
(`Offers.withPool`).

Each chunk that is counted while a span is assembled has brought as many bytes as a chunk has to hold (`Source.Fills`),
and the first byte of the span was there before (`Transport.Paid`).  So the count can only go too far in a span of more
than `Transport.sureOf` bytes, if as many are to come.  A length that is declared has 32 bits, so only chunks of one byte
can be that small (`eq_one_of_lt_longest`).

Closing a transport over a source that rewinds leaves just what the transport had to come (`Offers.close`).
-/

namespace CompactWire

open Outcome

/-- The next byte of a buffer. -/
theorem Buffer.next_eq {b : Buffer} {x : UInt8} {xs : Bytes} (h : b.ready = x :: xs) : b.next = .ok (x, b.skip 1) := by
  unfold next skip
  rw [h]
  rfl

theorem Buffer.consume_eq {b : Buffer} {n : Nat} (h : n ≤ b.length) : b.consume n = .ok (b.ready.take n, b.skip n) :=
  if_neg (Nat.not_lt.2 h)

/-- Of `length` bytes, `missing` are not yet in the buffer; there is room for them. -/
structure Buffer.Lacks (c : Pool.Config) (length missing : Nat) (b : Buffer) : Prop where
  length_eq : b.length + missing = length
  room : missing ≤ b.room
  homed : b.Homed c

theorem Buffer.Lacks.appended {c : Pool.Config} {length missing n : Nat} {b b' : Buffer} {bytes : Bytes}
    (h : b.Lacks c length missing) (hb : Appended bytes b b') (hlen : bytes.length = n) (hn : n ≤ missing) :
    b'.Lacks c length (missing - n) := by
  have hlength := h.length_eq
  have hroom := h.room
  have htaken := hb.room
  refine ⟨?_, by omega, hb.homed h.homed⟩
  unfold Buffer.length at hlength ⊢
  rw [hb.ready, List.length_append]
  omega

/-- A loan lacks all that it was made for. -/
theorem Pool.Lent.lacks {c : Config} {n : Nat} {b : Buffer} {p : Pool} (h : Lent c n b p) : b.Lacks c n n := by
  refine ⟨?_, h.room, h.homed⟩
  unfold Buffer.length
  rw [h.ready]
  exact Nat.zero_add n

namespace Transport

variable {σ : Type} {At : σ → Bytes → Bytes → Prop} {c : Pool.Config} {t : Transport σ} {d : Bytes}

/-- A span of so many bytes never needs more chunks of `portion` bytes than can be counted, as a byte is at hand
before. -/
def sureOf (portion : Nat) : Nat := portion * maxCount + 1

/-- A span of so many bytes never needs more chunks than can be counted. -/
def sure : Nat := sureOf 1

theorem sureOf_lt_longest {portion length : Nat} (h : 0 < portion) :
    sureOf portion < max 8 length ↔ sureOf portion < length := by
  have hsure : sureOf portion = portion * 2147483647 + 1 := rfl
  omega

/-- A length has 32 bits, so with chunks of more than one byte no string and no binary is too long. -/
theorem eq_one_of_lt_longest {portion : Nat} {limits : Limits} (hpos : 0 < portion)
    (h : sureOf portion < limits.longest) : portion = 1 ∧ sure < limits.maxString := by
  have hlong : portion * 2147483647 + 1 < min limits.maxString 4294967295 := h
  have hsure : sure = 2147483648 := rfl
  omega

/-- The bytes of the held chunk that are not taken yet. -/
def unread (t : Transport σ) : Bytes := t.held.elim [] Buffer.ready

theorem buffered_eq (t : Transport σ) : t.buffered = t.unread.length := by
  unfold buffered unread
  cases t.held <;> rfl

theorem buffered_of_held {chunk : Buffer} (h : t.held = some chunk) : t.buffered = chunk.length := by
  unfold buffered
  rw [h]
  rfl

/-- Bytes of the held chunk that are taken are at hand no more. -/
theorem buffered_skip {chunk : Buffer} (h : t.held = some chunk) (n : Nat) :
    buffered { t with held := some (chunk.skip n) } = t.buffered - n := by
  rw [buffered_of_held h]
  exact List.length_drop

theorem exists_held (h : t.unread ≠ []) : ∃ chunk, t.held = some chunk ∧ chunk.ready ≠ [] := by
  unfold unread at h
  cases hheld : t.held with
  | none =>
    rw [hheld] at h
    exact absurd rfl h
  | some chunk =>
    rw [hheld] at h
    exact ⟨chunk, rfl, h⟩

/-- The pool is sound, and the held chunk can go back to it. -/
structure Kept (c : Pool.Config) (t : Transport σ) : Prop where
  sound : t.pool.Sound
  config : t.pool.config = c
  homed : ∀ chunk, t.held = some chunk → chunk.Homed c

/-- The bytes `d` are to come. -/
def Offers (At : σ → Bytes → Bytes → Prop) (c : Pool.Config) (t : Transport σ) (d : Bytes) : Prop :=
  t.Kept c ∧ ∃ rest, d = t.unread ++ rest ∧ At t.source t.unread rest

/-- A new transport has to come what its source has. -/
theorem offers_opened {s : σ} {pool : Pool} (chunkSize : PosSize) (hpool : pool.Sound) (hat : At s [] d) :
    Offers At pool.config { source := s, pool, chunkSize } d :=
  ⟨⟨hpool, rfl, fun _ hn => by cases hn⟩, d, rfl, hat⟩

theorem Kept.giveBack {b : Buffer} (h : t.Kept c) (hb : b.Homed c) : (t.giveBack b).Kept c := by
  obtain ⟨hsound, hconfig⟩ := Pool.sound_release h.sound (h.config ▸ hb)
  exact ⟨hsound, hconfig.trans h.config, h.homed⟩

/-- The transport once other users have left the pool in another state. -/
def withPool (p : Pool) (t : Transport σ) : Transport σ := { t with pool := p }

theorem Offers.withPool {p : Pool} (h : t.Offers At c d) (hp : p.Sound) (hc : p.config = c) :
    (t.withPool p).Offers At c d :=
  ⟨⟨hp, hc, h.1.homed⟩, h.2⟩

theorem Offers.giveBack {b : Buffer} (h : t.Offers At c d) (hb : b.Homed c) : (t.giveBack b).Offers At c d :=
  ⟨h.1.giveBack hb, h.2⟩

/-- The bytes `d` are to come, in chunks of `size` bytes at most. -/
structure OffersIn (At : σ → Bytes → Bytes → Prop) (c : Pool.Config) (size : PosSize) (t : Transport σ) (d : Bytes) :
    Prop where
  offers : t.Offers At c d
  chunkSize_eq : t.chunkSize = size

theorem offersIn_opened {s : σ} {pool : Pool} (chunkSize : PosSize) (hpool : pool.Sound) (hat : At s [] d) :
    OffersIn At pool.config chunkSize { source := s, pool, chunkSize } d := ⟨offers_opened chunkSize hpool hat, rfl⟩

theorem OffersIn.withPool {size : PosSize} {p : Pool} (h : t.OffersIn At c size d) (hp : p.Sound) (hc : p.config = c) :
    (t.withPool p).OffersIn At c size d := ⟨h.offers.withPool hp hc, h.chunkSize_eq⟩

/-! ### Counting chunks -/

/-- Of the bytes that are copied or at hand, every chunk counted has brought a portion, and one was there before; or all
that is to come is at hand. -/
def Paid (portion chunks copied : Nat) (t : Transport σ) (d : Bytes) : Prop :=
  min (chunks * portion + 1) (copied + d.length) ≤ copied + t.buffered

variable {portion chunks copied : Nat}

/-- Where the count can go no further, so many bytes are copied. -/
theorem Paid.sure_le (h : Paid portion chunks copied t d) (hd : d ≠ []) (hchunks : chunks ≤ maxCount)
    (hcount : maxCount < chunks + t.due) : sureOf portion ≤ copied := by
  have hpos := List.length_pos_iff.2 hd
  unfold Paid at h
  unfold due at hcount
  split at hcount
  · obtain rfl : chunks = maxCount := by omega
    unfold sureOf
    rw [Nat.mul_comm]
    omega
  · omega

/-- What is copied is not at hand any more. -/
theorem Paid.skip {chunk : Buffer} {n : Nat} (h : Paid portion chunks copied t d) (hheld : t.held = some chunk)
    (hn : n ≤ chunk.length) (hd : n ≤ d.length) :
    Paid portion chunks (copied + n) { t with held := some (chunk.skip n) } (d.drop n) := by
  have hbuffered := buffered_of_held hheld
  unfold Paid at *
  rw [buffered_skip hheld, List.length_drop]
  omega

/-! ### Closing -/

variable [Source σ]

theorem Kept.close (h : t.Kept c) : t.close.Kept c := by
  unfold Transport.close
  split
  · exact h
  · rename_i chunk hheld
    have hnone : Kept c { t with source := Source.release chunk t.source, held := none } :=
      ⟨h.sound, h.config, fun _ hn => by cases hn⟩
    exact hnone.giveBack (h.homed chunk hheld)

/-- What a closed transport had to come is left in its source. -/
theorem Offers.close (hs : Source.Rewinds At) (h : t.Offers At c d) : At t.close.source [] d ∧ t.close.Kept c := by
  obtain ⟨hkept, rest, rfl, hat⟩ := h
  refine ⟨?_, hkept.close⟩
  unfold Transport.close unread at *
  split <;> rename_i hheld <;> rw [hheld] at hat ⊢
  · exact hat
  · exact hs.rewind hat

/-! ### Reading chunks -/

theorem assembleInto_full {length : Nat} {b : Buffer} (rounds chunks : Nat) (t : Transport σ) (h : length ≤ b.length) :
    assembleInto length rounds chunks b t = .ok b t := by
  cases rounds with
  | zero => rfl
  | succ rounds => exact if_pos h

omit [Source σ] in
theorem due_le (t : Transport σ) : t.due ≤ 1 := by
  unfold due
  split <;> decide

omit [Source σ] in
theorem due_of_unread (h : t.unread ≠ []) : t.due = 0 := by
  unfold due
  rw [buffered_eq]
  exact if_neg fun h0 => h (List.eq_nil_of_length_eq_zero h0)

theorem fillCounted_of_ok {t t' : Transport σ} (chunks : Nat) (hfill : fill t = .ok () t') : fillCounted chunks t =
    if maxCount < chunks + t.due then .error (.aborted .overflow) t' else .ok (chunks + t.due) t' := by
  unfold fillCounted
  rw [hfill]

theorem chunkSize_close (t : Transport σ) : t.close.chunkSize = t.chunkSize := by
  unfold Transport.close
  split <;> rfl

theorem chunkSize_fill {t t' : Transport σ} (hfill : fill t = .ok () t') : t'.chunkSize = t.chunkSize := by
  have hkept := (ledger_chunkSize t.chunkSize).fill (n := 0) (t := t) rfl
  rwa [hfill] at hkept

/-- With no byte to be had, assembling fails. -/
theorem round_error {length : Nat} {t t' : Transport σ} {b : Buffer} {e : Error} (rounds chunks : Nat)
    (hfill : fill t = .error e t') (hb : b.length < length) :
    assembleInto length (rounds + 1) chunks b t = .error e (t'.giveBack b) := by
  unfold assembleInto fillCounted
  dsimp only
  rw [if_neg (Nat.not_le.2 hb), hfill]

/-- With one chunk too many, assembling is broken off. -/
theorem round_overflow {length : Nat} {t t' : Transport σ} {b : Buffer} {chunks : Nat} (rounds : Nat)
    (hfill : fill t = .ok () t') (hb : b.length < length) (hcount : maxCount < chunks + t.due) :
    assembleInto length (rounds + 1) chunks b t = .error (.aborted .overflow) (t'.giveBack b) := by
  unfold assembleInto
  dsimp only
  rw [if_neg (Nat.not_le.2 hb), fillCounted_of_ok chunks hfill, if_pos hcount]

/-- With a byte at hand, a round of assembling copies as many bytes as are missing, held and fit, and goes on. -/
theorem round_eq {length missing : Nat} {t t' : Transport σ} {chunk b : Buffer} {chunks : Nat} (rounds : Nat)
    (hfill : fill t = .ok () t') (hcount : chunks + t.due ≤ maxCount) (hheld : t'.held = some chunk)
    (hready : chunk.ready ≠ []) (hb : b.Lacks c length missing) (hpos : 0 < missing) :
    ∃ n b', 0 < n ∧ n ≤ missing ∧ n ≤ chunk.ready.length ∧ min (length - b.length) (min chunk.length b.room) = n ∧
      b.put (chunk.ready.take n) = (n, b') ∧ b.Appended (chunk.ready.take n) b' ∧ b'.Lacks c length (missing - n) ∧
      assembleInto length (rounds + 1) chunks b t =
        assembleInto length rounds (chunks + t.due) b' { t' with held := some (chunk.skip n) } := by
  have hlength := hb.length_eq
  have hchunk := List.length_pos_iff.2 hready
  have hroom := hb.room
  generalize hwanted : min (length - b.length) (min chunk.length b.room) = n
  have hn : 0 < n ∧ n ≤ missing ∧ n ≤ chunk.ready.length := by unfold Buffer.length at *; omega
  obtain ⟨hn₀, hn, hn'⟩ := hn
  have hcopied : (chunk.ready.take n).length = n := List.length_take_of_le hn'
  have hfits : (chunk.ready.take n).length ≤ b.room := by omega
  obtain ⟨b', hput, happended⟩ := Buffer.exists_put hfits
  rw [hcopied] at hput
  have hadvance : chunk.advance n = .ok (chunk.skip n) := if_neg (Nat.not_lt.2 hn')
  refine ⟨n, b', hn₀, hn, hn', rfl, hput, happended, hb.appended happended hcopied hn, ?_⟩
  rw [assembleInto]
  dsimp only
  rw [if_neg (by omega), fillCounted_of_ok chunks hfill, if_neg (Nat.not_lt.2 hcount)]
  dsimp only
  rw [hheld]
  dsimp only
  rw [hwanted, if_neg (Nat.ne_of_gt hn₀), hput]
  dsimp only
  rw [hadvance]

variable (hs : Source.Delivers At)
include hs

theorem close_of_exhausted (h : t.Offers At c d) (hu : t.unread = []) : At t.close.source [] d := by
  obtain ⟨-, rest, rfl, hat⟩ := h
  rw [hu] at hat ⊢
  unfold Transport.close
  unfold unread at hu
  split
  · exact hat
  · rename_i chunk hheld
    rw [hheld] at hu
    exact hs.release hu hat

/-- Behind an exhausted chunk the next one is read, and fails to be read at the end of the stream only. -/
theorem refill_spec (h : t.Offers At c d) (hu : t.unread = []) :
    (d = [] ∧ ∃ t', refill t = .error .endOfInput t') ∨
    (d ≠ [] ∧ ∃ chunk s p,
      Source.readChunk t.close.chunkSize.val (t.close.source, t.close.pool) = .ok (some chunk) (s, p) ∧
      refill t = .ok () { t.close with source := s, pool := p, held := some chunk } ∧
      Offers At c { t.close with source := s, pool := p, held := some chunk } d ∧ chunk.ready ≠ []) := by
  have hat := close_of_exhausted hs h hu
  have hkept := h.1.close
  have hread := hs.readChunk hat hkept.sound t.close.chunkSize.property
  unfold refill
  dsimp only
  generalize Source.readChunk t.close.chunkSize.val (t.close.source, t.close.pool) = o at hread ⊢
  cases hread with
  | done hd => exact Or.inl ⟨hd, _, rfl⟩
  | @chunk s p b tail hne hd hat' hhomed hsound hconfig =>
    have hlen : b.length ≠ 0 := fun h0 => hne (List.eq_nil_of_length_eq_zero h0)
    refine Or.inr ⟨?_, b, s, p, rfl, ?_, ⟨⟨hsound, ?_, ?_⟩, tail, hd, hat'⟩, hne⟩
    · rw [hd]
      exact List.append_ne_nil_of_left_ne_nil hne tail
    · dsimp only
      rw [if_neg hlen]
    · exact hconfig.trans hkept.config
    · intro chunk hchunk
      cases hchunk
      exact hkept.config ▸ hhomed

theorem fill_spec (h : t.Offers At c d) : (d = [] ∧ ∃ t', fill t = .error .endOfInput t') ∨
    (d ≠ [] ∧ ∃ t' chunk, fill t = .ok () t' ∧ t'.Offers At c d ∧ t'.held = some chunk ∧ chunk.ready ≠ []) := by
  unfold fill
  rw [buffered_eq]
  by_cases h0 : t.unread.length = 0
  · rw [if_pos h0]
    rcases refill_spec hs h (List.eq_nil_of_length_eq_zero h0) with hd | ⟨hd, chunk, s, p, -, hread, hoffers, hready⟩
    · exact Or.inl hd
    · exact Or.inr ⟨hd, _, chunk, hread, hoffers, rfl, hready⟩
  · rw [if_neg h0]
    have hne : t.unread ≠ [] := fun hn => h0 (by rw [hn]; rfl)
    obtain ⟨chunk, hchunk, hready⟩ := exists_held hne
    refine Or.inr ⟨?_, t, chunk, rfl, h, hchunk, hready⟩
    obtain ⟨-, rest, rfl, -⟩ := h
    exact List.append_ne_nil_of_left_ne_nil hne rest

/-- Bytes of the held chunk are the first to come, and they can be taken. -/
theorem Offers.skip (h : t.Offers At c d) {chunk : Buffer} (hc : t.held = some chunk) {n : Nat}
    (hn : n ≤ chunk.ready.length) :
    chunk.ready.take n = d.take n ∧ Offers At c { t with held := some (chunk.skip n) } (d.drop n) := by
  obtain ⟨hkept, rest, rfl, hat⟩ := h
  have hu : t.unread = chunk.ready := by unfold unread; rw [hc]; rfl
  rw [hu] at hat ⊢
  refine ⟨(List.take_append_of_le_length hn).symm, ⟨hkept.sound, hkept.config, ?_⟩, rest, ?_, ?_⟩
  · intro chunk' hchunk'
    cases hchunk'
    exact (hkept.homed chunk hc).of_capacity rfl (Buffer.capacity_skip n chunk)
  · exact List.drop_append_of_le_length hn
  · rw [← List.take_append_drop n chunk.ready] at hat
    exact hs.take hat

variable {least : Nat → Nat} {t' : Transport σ}

/-- The next chunk holds a portion, or all that is to come. -/
theorem buffered_fill (hfills : Source.Fills At least) (h : t.Offers At c d) (h0 : t.buffered = 0)
    (hfill : fill t = .ok () t') : min (least t.chunkSize.val) d.length ≤ t'.buffered := by
  have hu : t.unread = [] := List.eq_nil_of_length_eq_zero (buffered_eq (t := t) ▸ h0)
  have hat := close_of_exhausted hs h hu
  have hkept := h.1.close
  unfold fill at hfill
  rw [if_pos h0] at hfill
  rcases refill_spec hs h hu with ⟨-, t'', hrefill⟩ | ⟨-, chunk, s, p, hread, hrefill, -⟩
  · cases hfill.symm.trans hrefill
  · cases hfill.symm.trans hrefill
    rw [← chunkSize_close t]
    exact hfills.le_length hat hkept.sound t.close.chunkSize.property hread

/-- The chunk that is due is counted. -/
theorem Paid.fill (hfills : Source.Fills At least) (h : t.Offers At c d) (hd : d ≠ [])
    (hpaid : Paid (least t.chunkSize.val) chunks copied t d) (hfill : fill t = .ok () t') :
    Paid (least t.chunkSize.val) (chunks + t.due) copied t' d := by
  by_cases h0 : t.buffered = 0
  · have hpos := List.length_pos_iff.2 hd
    have hchunk := buffered_fill hs hfills h h0 hfill
    have hdue : t.due = 1 := if_pos h0
    unfold Paid at *
    rw [hdue, Nat.add_mul, Nat.one_mul]
    omega
  · have hdue : t.due = 0 := if_neg h0
    unfold Transport.fill at hfill
    rw [if_neg h0] at hfill
    cases hfill
    rwa [hdue]

/-! ### Bytes and spans -/

theorem readByte_spec (h : t.Offers At c d) : (d = [] ∧ ∃ t', readByte t = .error .endOfInput t') ∨
    (∃ b d' t', d = b :: d' ∧ readByte t = .ok b t' ∧ t'.Offers At c d') := by
  unfold readByte
  rcases fill_spec hs h with ⟨hd, t', hfill⟩ | ⟨-, t', chunk, hfill, hoffers, hheld, hne⟩
  · exact Or.inl ⟨hd, t', bind_of_error hfill⟩
  · cases hready : chunk.ready with
    | nil => exact absurd hready hne
    | cons b tail =>
      have hpos : 1 ≤ chunk.ready.length := List.length_pos_iff.2 hne
      obtain ⟨htake, hskip⟩ := Offers.skip hs hoffers hheld hpos
      cases d with
      | nil =>
        rw [hready] at htake
        cases htake
      | cons b' d' =>
        rw [hready] at htake
        cases htake
        refine Or.inr ⟨b, d', { t' with held := some (chunk.skip 1) }, rfl, ?_, hskip⟩
        refine (bind_of_ok hfill).trans ((bind_of_ok (x := get) (a := t') rfl).trans ?_)
        rw [hheld]
        dsimp only
        rw [Buffer.next_eq hready]
        rfl

/-- With a byte at hand, a round of assembling copies some of what is missing, and the rounds behind it the rest. -/
theorem round_spec {length missing : Nat} {t t' : Transport σ} {chunk b : Buffer} {chunks : Nat} (rounds : Nat)
    (hfill : fill t = .ok () t') (hcount : chunks + t.due ≤ maxCount) (h : t'.Offers At c d)
    (hheld : t'.held = some chunk) (hready : chunk.ready ≠ []) (hb : b.Lacks c length missing) (hpos : 0 < missing) :
    ∃ n b', 0 < n ∧ n ≤ missing ∧ n ≤ chunk.ready.length ∧ n ≤ d.length ∧ b'.ready = b.ready ++ d.take n ∧
      b'.Lacks c length (missing - n) ∧ Offers At c { t' with held := some (chunk.skip n) } (d.drop n) ∧
      assembleInto length (rounds + 1) chunks b t =
        assembleInto length rounds (chunks + t.due) b' { t' with held := some (chunk.skip n) } := by
  obtain ⟨n, b', hn₀, hn, hn', -, -, happended, hlacks, hround⟩ := round_eq rounds hfill hcount hheld hready hb hpos
  obtain ⟨htake, hskip⟩ := Offers.skip hs h hheld hn'
  have hle : n ≤ d.length := by
    have hlength := congrArg List.length htake
    rw [List.length_take_of_le hn', List.length_take] at hlength
    omega
  exact ⟨n, b', hn₀, hn, hn', hle, htake ▸ happended.ready, hlacks, hskip, hround⟩

variable (hfills : Source.Fills At least)
include hfills

/-- Assembling takes what is missing, if there is as much, unless it is broken off. -/
theorem assembleInto_spec {length : Nat} {size : PosSize} : ∀ (rounds missing chunks : Nat) {b : Buffer}
    {t : Transport σ} {d : Bytes}, t.Offers At c d → t.chunkSize = size → b.Lacks c length missing → missing ≤ rounds →
    chunks ≤ maxCount → Paid (least size.val) chunks b.length t d →
    (sureOf (least size.val) < length ∧ sureOf (least size.val) < b.length + d.length ∧
      ∃ t', assembleInto length rounds chunks b t = .error (.aborted .overflow) t') ∨
    (d.length < missing ∧ ∃ t', assembleInto length rounds chunks b t = .error .endOfInput t') ∨
    (missing ≤ d.length ∧ ∃ b' t', assembleInto length rounds chunks b t = .ok b' t' ∧
      b'.ready = b.ready ++ d.take missing ∧ b'.Lacks c length 0 ∧ t'.Offers At c (d.drop missing))
  | rounds, 0, chunks, b, t, _, h, _, hb, _, _, _ =>
    Or.inr (Or.inr ⟨Nat.zero_le _, b, t, assembleInto_full rounds chunks t (Nat.le_of_eq hb.length_eq.symm),
      (List.append_nil _).symm, hb, h⟩)
  | 0, missing + 1, _, _, _, _, _, _, _, hm, _, _ => absurd hm (Nat.not_succ_le_zero missing)
  | rounds + 1, missing + 1, chunks, b, t, d, h, hsize, hb, hm, hchunks, hpaid => by
    have hlength := hb.length_eq
    have hlt : b.length < length := by omega
    rcases fill_spec hs h with ⟨rfl, t', hfill⟩ | ⟨hd, t', chunk, hfill, hoffers, hheld, hready⟩
    · exact Or.inr (Or.inl ⟨Nat.succ_pos _, _, round_error rounds chunks hfill hlt⟩)
    by_cases hcount : maxCount < chunks + t.due
    · have hpos := List.length_pos_iff.2 hd
      have hsure := hpaid.sure_le hd hchunks hcount
      exact Or.inl ⟨by omega, by omega, _, round_overflow rounds hfill hlt hcount⟩
    obtain ⟨n, b₁, hpos, hn, hchunk, hle, hready₁, hb₁, hoffers₁, hround⟩ :=
      round_spec hs rounds hfill (Nat.not_lt.1 hcount) hoffers hheld hready hb (Nat.succ_pos _)
    have hlength₁ : b₁.length = b.length + n := by
      have := hb₁.length_eq
      omega
    have hpaid₁ := hlength₁ ▸ (Paid.fill hs hfills h hd (hsize ▸ hpaid) hfill).skip hheld hchunk hle
    rw [hsize] at hpaid₁
    rw [hround]
    rcases assembleInto_spec rounds (missing + 1 - n) (chunks + t.due) hoffers₁
      ((chunkSize_fill hfill).trans hsize) hb₁ (by omega)
      (Nat.not_lt.1 hcount) hpaid₁ with
      ⟨hlong, hahead, herr⟩ | ⟨hshort, herr⟩ | ⟨hlong, b', t'', hok, hready', hb', hoffers'⟩
    · rw [List.length_drop] at hahead
      exact Or.inl ⟨hlong, by omega, herr⟩
    · rw [List.length_drop] at hshort
      exact Or.inr (Or.inl ⟨by omega, herr⟩)
    · rw [List.length_drop] at hlong
      refine Or.inr (Or.inr ⟨by omega, b', t'', hok, ?_, hb', ?_⟩)
      · rw [hready', hready₁, List.append_assoc, ← List.take_add, Nat.add_sub_cancel' hn]
      · rwa [List.drop_drop, Nat.add_sub_cancel' hn] at hoffers'

theorem assemble_spec (length : Nat) (h : t.Offers At c d) (hunread : t.unread ≠ []) :
    (sureOf (least t.chunkSize.val) < length ∧ sureOf (least t.chunkSize.val) < d.length ∧
      ∃ t', assemble length t = .error (.aborted .overflow) t') ∨
    (d.length < length ∧ ∃ t', assemble length t = .error .endOfInput t') ∨
    (length ≤ d.length ∧ ∃ b t', assemble length t = .ok b t' ∧ b.ready = d.take length ∧ b.Homed c ∧
      t'.Offers At c (d.drop length)) := by
  have hlent := Pool.lent_alloc h.1.sound length
  rw [h.1.config] at hlent
  unfold assemble
  dsimp only
  generalize t.pool.alloc length = loan at hlent ⊢
  obtain ⟨b, p⟩ := loan
  dsimp only at hlent ⊢
  have hoffers : Offers At c { t with pool := p } d := h.withPool hlent.sound hlent.config
  have hnone : b.length = 0 := by
    have := hlent.lacks.length_eq
    omega
  -- before the first chunk that is counted there is a byte at hand
  have hpaid : Paid (least t.chunkSize.val) 0 b.length { t with pool := p } d := by
    have hpos := List.length_pos_iff.2 hunread
    have hbuffered : buffered { t with pool := p } = t.unread.length := buffered_eq _
    unfold Paid
    omega
  rcases assembleInto_spec hs hfills length length 0 hoffers rfl hlent.lacks (Nat.le_refl _) (Nat.zero_le _) hpaid with
    ⟨hlong, hahead, t', herr⟩ | ⟨hshort, t', herr⟩ | ⟨hlong, b', t', hok, hready, hb', hoffers⟩
  · rw [herr]
    rw [hnone, Nat.zero_add] at hahead
    exact Or.inl ⟨hlong, hahead, _, rfl⟩
  · rw [herr]
    exact Or.inr (Or.inl ⟨hshort, _, rfl⟩)
  · rw [hlent.ready, List.nil_append] at hready
    rw [hok]
    dsimp only
    rw [if_pos (show b'.length = length from hb'.length_eq)]
    exact Or.inr (Or.inr ⟨hlong, b', t', rfl, hready, hb'.homed, hoffers⟩)

theorem readSpan_spec (length : Nat) (h : t.Offers At c d) :
    Input.BreaksOff (sureOf (least t.chunkSize.val)) length d t ∨
    (d.length < length ∧ ∃ t', readSpan length t = .error .endOfInput t') ∨
    (length ≤ d.length ∧ ∃ a t', readSpan length t = .ok a t' ∧ Input.bytes (Transport σ) a = d.take length ∧
      Offers At c (Input.release a t') (d.drop length)) := by
  by_cases h0 : length = 0
  · subst h0
    exact Or.inr (Or.inr ⟨Nat.zero_le _, .borrowed [], t, rfl, rfl, h⟩)
  rcases fill_spec hs h with ⟨hd, t', hfill⟩ | ⟨-, t', chunk, hfill, hoffers, hheld, hne⟩
  · refine Or.inr (Or.inl ⟨by rw [hd]; exact Nat.pos_of_ne_zero h0, t', ?_⟩)
    unfold readSpan
    rw [if_neg h0]
    exact bind_of_error hfill
  have hbuffered : t'.buffered = chunk.ready.length := buffered_of_held hheld
  by_cases hlt : t'.buffered < length
  · -- with the first byte at hand, the span is assembled
    have hrest : ∀ {o}, (do return .assembled (← assemble length) : EStateM _ _ _) t' = o → readSpan length t = o := by
      intro o ho
      unfold readSpan
      rw [if_neg h0]
      refine (bind_of_ok hfill).trans ((bind_of_ok (x := get) (a := t') rfl).trans ?_)
      rw [if_pos hlt]
      exact ho
    have hunread : t'.unread ≠ [] := by
      unfold unread
      rw [hheld]
      exact hne
    rcases assemble_spec hs hfills length hoffers hunread with
      ⟨hlong, hahead, t'', herr⟩ | ⟨hshort, t'', herr⟩ | ⟨hlong, b, t'', hok, hready, hb, hoffers'⟩
    · rw [chunkSize_fill hfill] at hlong hahead
      exact Or.inl ⟨hlong, hahead, t'', hrest (bind_of_error herr)⟩
    · exact Or.inr (Or.inl ⟨hshort, t'', hrest (bind_of_error herr)⟩)
    · exact Or.inr (Or.inr ⟨hlong, .assembled b, t'', hrest (bind_of_ok hok), hready, hoffers'.giveBack hb⟩)
  · have hn : length ≤ chunk.ready.length := by omega
    obtain ⟨htake, hskip⟩ := Offers.skip hs hoffers hheld hn
    have hle : length ≤ d.length := by
      have := congrArg List.length htake
      rw [List.length_take, List.length_take] at this
      omega
    refine Or.inr (Or.inr ⟨hle, .borrowed (chunk.ready.take length), { t' with held := some (chunk.skip length) }, ?_,
      htake, hskip⟩)
    unfold readSpan
    rw [if_neg h0]
    refine (bind_of_ok hfill).trans ((bind_of_ok (x := get) (a := t') rfl).trans ?_)
    rw [if_neg hlt, hheld]
    dsimp only
    rw [Buffer.consume_eq hn]
    rfl

/-- **A transport presents the stream of its source**, and the size of its chunks stays as it is. -/
theorem presents (c : Pool.Config) (size : PosSize) :
    Input.Presents (sureOf (least size.val)) (OffersIn At c size) where
  readByte_cons := by
    rintro t b d ⟨h, hsize⟩
    have hkept := (ledger_chunkSize size).readByte (n := 0) hsize
    rcases readByte_spec hs h with ⟨hd, -⟩ | ⟨b', d', t', hd, hread, hoffers⟩
    · cases hd
    · cases hd
      rw [hread] at hkept
      exact ⟨t', hread, hoffers, hkept⟩
  readByte_nil := by
    rintro t ⟨h, -⟩
    rcases readByte_spec hs h with ⟨-, hread⟩ | ⟨b', d', t', hd, -⟩
    · exact hread
    · cases hd
  readSpan := by
    rintro t d length ⟨h, hsize⟩ hlen
    have hkept := (ledger_chunkSize size).readSpan (n := 0) length hsize
    rcases readSpan_spec hs hfills length h with hbroken | ⟨hshort, -⟩ | ⟨-, span, t', hread, hbytes, hoffers⟩
    · exact Or.inl (hsize ▸ hbroken)
    · omega
    · rw [hread] at hkept
      exact Or.inr ⟨span, t', hread, hbytes, hoffers, (ledger_chunkSize size).release (n := 0) hkept⟩
  readSpan_short := by
    rintro t d length ⟨h, hsize⟩ hlen
    rcases readSpan_spec hs hfills length h with hbroken | ⟨-, hread⟩ | ⟨hlong, -⟩
    · exact Or.inl (hsize ▸ hbroken)
    · exact Or.inr hread
    · omega
  remaining := by
    rintro t d ⟨⟨-, rest, rfl, hat⟩, -⟩
    have hrest := hs.remaining hat
    show (t.unread ++ rest).length ≤ t.buffered + Source.remaining t.source
    rw [List.length_append, buffered_eq]
    omega

end Transport

end CompactWire

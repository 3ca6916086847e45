import CompactWire.Proofs.HandBack
import CompactWire.Proofs.Streams

/-!
# CompactWire.Proofs.Portions — how much a chunk holds

A source serves portions if each of its chunks is as long as a chunk can be, or holds all that is left
(`Source.Portions`).  Then the number of bytes ahead tells how many of them the next chunks hold together (`supply_eq`).
Bytes in memory serve portions, and so does a range within a file.

A number that goes up with every chunk that is read, and never else, is a tally of the chunks (`Source.Tallies`).  The
log of a source is one, whatever the source.
-/

namespace CompactWire

open Outcome

namespace Source

variable {σ : Type} [Source σ] {At : σ → Bytes → Bytes → Prop} {portion : σ → Nat → Nat}

/-- How many bytes the next `k` chunks hold together.  Each is used up and handed back before the next is read. -/
def supply (max : Nat) : (k : Nat) → σ → Pool → Nat
  | 0, _, _ => 0
  | k + 1, s, p =>
    match readChunk max (s, p) with
    | .ok (some chunk) (s, p) =>
      let used := chunk.skip chunk.length
      chunk.length + supply max k (release used s) (p.release used)
    | _ => 0

/-- Chunks hold `portion s max` bytes, the last one perhaps fewer.  A chunk is the only loan that is made for it. -/
structure Portions (At : σ → Bytes → Bytes → Prop) (portion : σ → Nat → Nat) : Prop extends Delivers At where
  portion_pos {s : σ} {max : Nat} : 0 < max → 0 < portion s max
  readPortion {s s' : σ} {rest : Bytes} {p p' : Pool} {max : Nat} {chunk : Buffer} : At s [] rest → p.Sound →
    Source.readChunk max (s, p) = .ok (some chunk) (s', p') →
      chunk.length = min (portion s max) rest.length ∧ portion s' = portion s ∧ p'.loans = p.loans + 1
  /-- Behind the end of the stream there is nothing to read, as often as one tries. -/
  ended {s : σ} {p : Pool} {max : Nat} : At s [] [] →
    ∃ s', Source.readChunk max (s, p) = .ok none (s', p) ∧ At s' [] [] ∧ portion s' = portion s
  portion_release (chunk : Buffer) (s : σ) : portion (Source.release chunk s) = portion s
  remaining_eq {s : σ} {unread rest : Bytes} : At s unread rest → Source.remaining s = rest.length

/-- A number that goes up by one with every chunk that is read. -/
structure Tallies (tally : σ → Nat) : Prop where
  readChunk (max : Nat) (s : σ) (p : Pool) :
    Ends (fun chunk state => tally state.1 = tally s + chunks chunk) (fun state => tally state.1 = tally s)
      (Source.readChunk max (s, p))
  release (chunk : Buffer) (s : σ) : tally (Source.release chunk s) = tally s

/-- Used up, a chunk leaves its source where the next one begins. -/
theorem Delivers.use {s : σ} {rest : Bytes} {chunk : Buffer} (h : Delivers At) (hat : At s chunk.ready rest) :
    At (Source.release (chunk.skip chunk.length) s) [] rest := by
  rw [← List.append_nil chunk.ready] at hat
  exact h.release List.drop_length (h.take hat)

/-- The next chunks hold all that is left, or a portion each. -/
theorem Portions.supply_eq (h : Portions At portion) {max : Nat} (hmax : 0 < max) : ∀ (k : Nat) {s : σ} {rest : Bytes}
    {p : Pool}, At s [] rest → p.Sound → supply max k s p = min (k * portion s max) rest.length
  | 0, _, _, _, _, _ => by rw [Nat.zero_mul, Nat.zero_min, supply]
  | k + 1, s, rest, p, hat, hp => by
    unfold supply
    have hread := h.readChunk hat hp hmax
    generalize ho : Source.readChunk max (s, p) = o at hread
    cases hread with
    | done hrest =>
      rw [hrest]
      exact (Nat.min_zero _).symm
    | @chunk s' p' chunk tail _ hrest hat' hhomed hsound hconfig =>
      obtain ⟨hlength, hportion, -⟩ := h.readPortion hat hp ho
      have hused : (chunk.skip chunk.length).Homed p'.config := by
        rw [hconfig]
        exact hhomed.of_capacity rfl (Buffer.capacity_skip _ chunk)
      have hrun := h.supply_eq hmax k (h.use hat') (Pool.sound_release hsound hused).1
      have htail : rest.length = chunk.length + tail.length := by
        rw [hrest]
        exact List.length_append
      dsimp only
      rw [hrun, h.portion_release, hportion, Nat.succ_mul]
      omega

/-- A portion is what a chunk holds at the least. -/
theorem Portions.fills (h : Portions At portion) {least : Nat → Nat} (hpos : ∀ {max}, 0 < max → 0 < least max)
    (hleast : ∀ {s : σ} {rest : Bytes}, At s [] rest → portion s = least) : Fills At least where
  least_pos := hpos
  le_length hat hp _ hread := by rw [(h.readPortion hat hp hread).1, hleast hat]

/-! ### Sources with a log -/

theorem Delivers.logged (h : Delivers At) : Delivers fun (s : Logged σ) => At s.source where
  readChunk {s rest p max} hat hp hmax := by
    have hread := h.readChunk hat hp hmax
    show ReadsChunk _ _ _ (Logged.readChunk max (s, p))
    unfold Logged.readChunk
    dsimp only
    generalize Source.readChunk max (s.source, p) = o at hread ⊢
    cases hread with
    | done hrest => exact .done hrest
    | chunk hne hrest hat' hhomed hsound hconfig => exact .chunk hne hrest hat' hhomed hsound hconfig
  take := h.take
  release := h.release
  remaining := h.remaining

theorem Portions.logged (h : Portions At portion) :
    Portions (fun (s : Logged σ) => At s.source) (fun s => portion s.source) where
  toDelivers := h.toDelivers.logged
  portion_pos := h.portion_pos
  readPortion {s s' rest p p' max chunk} hat hp hread :=
    h.readPortion hat hp ((Logged.view.readChunk max s p).trans (congrArg (onState _) hread))
  ended {s p max} hat := by
    obtain ⟨s', hread, hat', hportion⟩ : ∃ s', Source.readChunk max (s.source, p) = .ok none (s', p) ∧ At s' [] [] ∧
        portion s' = portion s.source := h.ended hat
    refine ⟨⟨s', s.log ++ [.ended]⟩, ?_, hat', hportion⟩
    show Logged.readChunk max (s, p) = _
    unfold Logged.readChunk
    dsimp only
    rw [hread]
  portion_release chunk s := h.portion_release chunk s.source
  remaining_eq := h.remaining_eq

end Source

/-- A log tells how many chunks were read. -/
theorem Logged.tallies {σ : Type} [Source σ] :
    Source.Tallies fun (s : Logged σ) => s.log.countP SourceEvent.isChunk where
  readChunk max s p := by
    show Ends _ _ (Logged.readChunk max (s, p))
    unfold Logged.readChunk
    dsimp only
    generalize Source.readChunk max (s.source, p) = o
    match o with
    | .ok (some chunk) (source, pool) => exact List.countP_append
    | .ok none (source, pool) => exact List.countP_append
    | .error fault (source, pool) => exact List.countP_append
  release _ _ := List.countP_append

/-! ### Bytes in memory and ranges of files -/

theorem MemorySource.portions {data : Bytes} {chunkSize : PosSize} {stop : Nat} :
    Source.Portions (At data chunkSize stop) fun s max => min max s.chunkSize.val where
  toDelivers := rewinds.toDelivers
  portion_pos {s max} hmax := Nat.lt_min.2 ⟨hmax, s.chunkSize.property⟩
  readPortion {s s' rest p p' max chunk} hat hp hread := by
    obtain ⟨rfl, -, h⟩ := hat
    have hrest : rest.length = s.data.length - s.position := by rw [h.ahead, List.length_drop]
    have hlent := Pool.lent_alloc hp (min (s.data.length - s.position) (min max s.chunkSize.val))
    have hloans := (p.counts_alloc (min (s.data.length - s.position) (min max s.chunkSize.val))).1
    have hread : MemorySource.readChunk max (s, p) = .ok (some chunk) (s', p') := hread
    unfold MemorySource.readChunk at hread
    dsimp only at hread
    split at hread
    · cases hread
    · obtain ⟨chunk', hput, hready, -⟩ := hlent.put (List.length_take_le _ (s.data.drop s.position))
      rw [hput] at hread
      cases hread
      refine ⟨?_, rfl, hloans⟩
      unfold Buffer.length
      rw [hready, List.length_take, List.length_drop]
      omega
  ended {s p max} hat := by
    refine ⟨s, if_pos ?_, hat, rfl⟩
    obtain ⟨rfl, -, h⟩ := hat
    have hrest : ([] : Bytes).length = s.data.length - s.position := by rw [h.ahead, List.length_drop]
    rw [← hrest]
    exact Nat.zero_min _
  portion_release _ _ := rfl
  remaining_eq {s unread rest} hat := by
    obtain ⟨rfl, -, h⟩ := hat
    rw [h.ahead, List.length_drop]
    rfl

theorem MemorySource.fills {data : Bytes} {chunkSize : PosSize} {stop : Nat} :
    Source.Fills (At data chunkSize stop) fun max => min max chunkSize.val :=
  portions.fills (fun hmax => Nat.lt_min.2 ⟨hmax, chunkSize.property⟩) fun h =>
    congrArg (fun size max => min max size.val) h.chunkSize_eq

theorem FileSource.portions {contents : Bytes} {start stop : Nat} (hstop : stop ≤ contents.length)
    (hfile : contents.length ≤ 1 <<< 63) : Source.Portions (At contents start stop) fun _ max => max where
  toDelivers := (rewinds hstop hfile).toDelivers
  portion_pos hmax := hmax
  readPortion {s s' rest p p' max chunk} hat hp hread := by
    have hends := hat.cursor.ends
    have hrest : s.remaining = rest.length := by
      unfold remaining
      rw [hat.stop_eq]
      omega
    have hlent := Pool.lent_alloc hp (min s.remaining max)
    have hloans := (p.counts_alloc (min s.remaining max)).1
    have hread : FileSource.readChunk max (s, p) = .ok (some chunk) (s', p') := hread
    unfold FileSource.readChunk at hread
    dsimp only at hread
    split at hread
    · cases hread
    split at hread
    · cases hread
    split at hread
    · cases hread
    rename_i hwhole
    -- the file gave all that was asked for, so this is what is committed
    have hlen := List.length_take_le (min s.remaining max) (s.contents.drop s.position)
    obtain ⟨chunk', hcommit, hready, -⟩ := hlent.commit hlen
    rw [Nat.le_antisymm hlen (Nat.not_lt.1 hwhole)] at hcommit
    rw [hcommit] at hread
    cases hread
    refine ⟨?_, rfl, hloans⟩
    unfold Buffer.length
    rw [hready]
    omega
  ended {s p max} hat := by
    have hends := hat.cursor.ends
    have hremaining : s.remaining = 0 := by
      unfold remaining
      rw [hat.stop_eq]
      exact Nat.sub_eq_zero_of_le (Nat.le_of_eq hends.symm)
    refine ⟨s, if_pos ?_, hat, rfl⟩
    rw [hremaining]
    exact Nat.zero_min _
  portion_release _ _ := rfl
  remaining_eq {s unread rest} hat := by
    have hends := hat.cursor.ends
    show min s.stop s.contents.length - s.position = rest.length
    rw [hat.stop_eq, hat.contents_eq, Nat.min_eq_left hstop]
    omega

theorem FileSource.fills {contents : Bytes} {start stop : Nat} (hstop : stop ≤ contents.length)
    (hfile : contents.length ≤ 1 <<< 63) : Source.Fills (At contents start stop) fun max => max :=
  (portions hstop hfile).fills (fun hmax => hmax) fun _ => rfl

end CompactWire

import CompactWire.Proofs.Lending
import CompactWire.Source.File
import CompactWire.Source.Memory
import CompactWire.Source.Script

/-!
# CompactWire.Proofs.Streams — the streams that sources deliver

`At s unread rest` is to say that `s` is a source of which a chunk is held with the bytes `unread` not taken yet, and
that `rest` comes behind them.  `Source.Delivers At` says that it is right to say so: the chunks are not empty and hold
the next bytes of the stream, until the stream ends.  `Source.Rewinds At` says moreover that a chunk that is handed back
with unread bytes leaves the stream where these bytes begin.

Bytes in memory and a range within a file rewind, wherever they stand; both keep a `Cursor` into a byte string.  A
script of chunks delivers, and does not rewind.
-/

namespace CompactWire

namespace Source

variable {σ : Type} [Source σ]

/-- A source with `rest` ahead was asked for a chunk. -/
inductive ReadsChunk (At : σ → Bytes → Bytes → Prop) (c : Pool.Config) (rest : Bytes) :
    EStateM.Result IoFault (σ × Pool) (Option Buffer) → Prop
  | done {s : σ} {p : Pool} (ended : rest = []) : ReadsChunk At c rest (.ok none (s, p))
  | chunk {s : σ} {p : Pool} {b : Buffer} {tail : Bytes} (nonempty : b.ready ≠ []) (split : rest = b.ready ++ tail)
    (at_tail : At s b.ready tail) (homed : b.Homed c) (sound : p.Sound) (config : p.config = c) :
    ReadsChunk At c rest (.ok (some b) (s, p))

/-- Sources deliver streams in chunks that are not empty. -/
structure Delivers (At : σ → Bytes → Bytes → Prop) : Prop where
  readChunk {s : σ} {rest : Bytes} {p : Pool} {max : Nat} : At s [] rest → p.Sound → 0 < max →
    ReadsChunk At p.config rest (Source.readChunk max (s, p))
  /-- Bytes are taken from the chunk that is held. -/
  take {s : σ} {a b rest : Bytes} : At s (a ++ b) rest → At s b rest
  release {s : σ} {rest : Bytes} {chunk : Buffer} : chunk.ready = [] → At s [] rest →
    At (Source.release chunk s) [] rest
  remaining {s : σ} {unread rest : Bytes} : At s unread rest → rest.length ≤ Source.remaining s

/-- Of the `max` bytes that it may have, a chunk holds `least max`, or all that is left. -/
structure Fills (At : σ → Bytes → Bytes → Prop) (least : Nat → Nat) : Prop where
  least_pos {max : Nat} : 0 < max → 0 < least max
  le_length {s s' : σ} {rest : Bytes} {p p' : Pool} {max : Nat} {chunk : Buffer} : At s [] rest → p.Sound → 0 < max →
    Source.readChunk max (s, p) = .ok (some chunk) (s', p') → min (least max) rest.length ≤ chunk.length

/-- A chunk that is not empty holds a byte. -/
theorem Delivers.fills {At : σ → Bytes → Bytes → Prop} (h : Delivers At) : Fills At fun _ => 1 where
  least_pos _ := Nat.one_pos
  le_length {s s' rest p p' max chunk} hat hp hmax hread := by
    have hchunk := h.readChunk hat hp hmax
    rw [hread] at hchunk
    cases hchunk with
    | chunk nonempty => exact Nat.le_trans (Nat.min_le_left 1 _) (List.length_pos_iff.2 nonempty)

/-- What is handed back unread comes again. -/
structure Rewinds (At : σ → Bytes → Bytes → Prop) : Prop extends Delivers At where
  rewind {s : σ} {rest : Bytes} {chunk : Buffer} :
    At s chunk.ready rest → At (Source.release chunk s) [] (chunk.ready ++ rest)

end Source

/-! ### Byte strings with a position -/

/-- Of a byte string everything from `position` on is ahead, and the bytes right before it are `unread`.  The bytes
ahead end at `stop`. -/
structure Cursor (whole : Bytes) (stop position : Nat) (unread rest : Bytes) : Prop where
  ahead : rest = whole.drop position
  ends : position + rest.length = stop
  held : unread.length ≤ position
  behind : unread ++ rest = whole.drop (position - unread.length)

namespace Cursor

variable {whole unread rest : Bytes} {stop position : Nat}

theorem read (h : Cursor whole stop position [] rest) {n : Nat} (hn : n ≤ rest.length) :
    Cursor whole stop (position + n) (rest.take n) (rest.drop n) := by
  have hlen : (rest.take n).length = n := List.length_take_of_le hn
  refine ⟨?_, ?_, ?_, ?_⟩
  · rw [h.ahead, List.drop_drop]
  · have hends := h.ends
    rw [List.length_drop]
    omega
  · rw [hlen]
    exact Nat.le_add_left _ _
  · rw [hlen, Nat.add_sub_cancel, List.take_append_drop]
    exact h.ahead

theorem take {a b : Bytes} (h : Cursor whole stop position (a ++ b) rest) : Cursor whole stop position b rest := by
  have hheld := h.held
  have hbehind := h.behind
  rw [List.length_append] at hheld
  refine ⟨h.ahead, h.ends, by omega, ?_⟩
  rw [List.append_assoc, List.length_append] at hbehind
  have hdrop : (whole.drop (position - (a.length + b.length))).drop a.length = b ++ rest := by
    rw [← hbehind, List.drop_left]
  rw [← hdrop, List.drop_drop]
  congr 1
  omega

theorem rewind (h : Cursor whole stop position unread rest) :
    Cursor whole stop (position - unread.length) [] (unread ++ rest) := by
  have hheld := h.held
  have hends := h.ends
  refine ⟨h.behind, ?_, Nat.zero_le _, h.behind⟩
  rw [List.length_append]
  omega

end Cursor

/-! ### Bytes in memory -/

namespace MemorySource

/-- The bytes to come. -/
def ahead (s : MemorySource) : Bytes := s.data.drop s.position

/-- A source of `data` with `unread` bytes held, and `rest` behind them up to `stop`. -/
structure At (data : Bytes) (chunkSize : PosSize) (stop : Nat) (s : MemorySource) (unread rest : Bytes) : Prop where
  data_eq : s.data = data
  chunkSize_eq : s.chunkSize = chunkSize
  cursor : Cursor data stop s.position unread rest

variable {data : Bytes} {chunkSize : PosSize} {stop : Nat}

/-- Wherever it stands, a source delivers what is ahead. -/
theorem at_ahead (s : MemorySource) : At s.data s.chunkSize (s.position + s.ahead.length) s [] s.ahead :=
  ⟨rfl, rfl, rfl, rfl, Nat.zero_le _, rfl⟩

/-- What comes behind the held bytes is ahead. -/
theorem ahead_eq {s : MemorySource} {unread rest : Bytes} (h : At data chunkSize stop s unread rest) :
    s.ahead = rest := by
  obtain ⟨rfl, -, h⟩ := h
  exact h.ahead.symm

theorem readsChunk {s : MemorySource} {rest : Bytes} {p : Pool} {max : Nat} (h : At data chunkSize stop s [] rest)
    (hp : p.Sound) (hmax : 0 < max) :
    Source.ReadsChunk (At data chunkSize stop) p.config rest (readChunk max (s, p)) := by
  obtain ⟨rfl, rfl, h⟩ := h
  have hpos := s.chunkSize.property
  have hrest : rest.length = s.data.length - s.position := by rw [h.ahead, List.length_drop]
  by_cases h0 : min (s.data.length - s.position) (min max s.chunkSize.val) = 0
  · unfold readChunk
    dsimp only
    rw [if_pos h0]
    exact .done (List.eq_nil_of_length_eq_zero (by omega))
  · have hle : min (s.data.length - s.position) (min max s.chunkSize.val) ≤ rest.length := by omega
    have hlent := Pool.lent_alloc hp (min (s.data.length - s.position) (min max s.chunkSize.val))
    unfold readChunk
    dsimp only
    rw [if_neg h0, ← h.ahead]
    generalize min (s.data.length - s.position) (min max s.chunkSize.val) = n at h0 hle hlent ⊢
    have hlen : (rest.take n).length = n := List.length_take_of_le hle
    obtain ⟨chunk, hput, hready, hhomed⟩ := hlent.put (Nat.le_of_eq hlen)
    have hread := h.read hle
    rw [← hready] at hread
    rw [hput, hlen]
    refine .chunk ?_ ?_ ⟨rfl, rfl, hread⟩ hhomed hlent.sound hlent.config
    · rw [hready]
      exact List.ne_nil_of_length_pos (by omega)
    · rw [hready, List.take_append_drop]

theorem rewinds : Source.Rewinds (At data chunkSize stop) where
  readChunk := readsChunk
  take := fun ⟨hd, hsize, h⟩ => ⟨hd, hsize, h.take⟩
  release := fun {s rest chunk} hc ⟨hd, hsize, h⟩ => by
    refine ⟨hd, hsize, ?_⟩
    show Cursor data stop (s.position - chunk.ready.length) [] rest
    rw [hc]
    exact h
  remaining := fun {s unread rest} ⟨hd, _, h⟩ => by
    have hlen : rest.length = s.data.length - s.position := by rw [h.ahead, List.length_drop, hd]
    exact Nat.le_of_eq hlen
  rewind := fun ⟨hd, hsize, h⟩ => ⟨hd, hsize, h.rewind⟩

end MemorySource

/-! ### A range of a file -/

namespace FileSource

/-- The bytes to come. -/
def ahead (s : FileSource) : Bytes := (s.contents.take s.stop).drop s.position

/-- The range lies within the file, and the position within the range.  No file is longer than it can be positioned. -/
structure Inside (s : FileSource) : Prop where
  start_le : s.start ≤ s.position
  le_stop : s.position ≤ s.stop
  stop_le : s.stop ≤ s.contents.length
  length_le : s.contents.length ≤ 1 <<< 63

theorem inside_range {contents : Bytes} {offset limit : Nat} (h : offset + limit ≤ contents.length)
    (hlength : contents.length ≤ 1 <<< 63) : (range contents offset limit).Inside := by
  have hstop : (range contents offset limit).stop = offset + limit := by
    show min (offset + limit) maxOffset = offset + limit
    have hmax : maxOffset = 18446744073709551615 := rfl
    omega
  exact ⟨Nat.le_refl _, hstop ▸ Nat.le_add_right _ _, hstop ▸ h, hlength⟩

/-- A source of the range from `start` to `stop` with `unread` bytes held, and `rest` behind them. -/
structure At (contents : Bytes) (start stop : Nat) (s : FileSource) (unread rest : Bytes) : Prop where
  contents_eq : s.contents = contents
  start_eq : s.start = start
  stop_eq : s.stop = stop
  start_le : start + unread.length ≤ s.position
  cursor : Cursor (contents.take stop) stop s.position unread rest

variable {contents : Bytes} {start stop : Nat}

theorem at_ahead {s : FileSource} (h : s.Inside) : At s.contents s.start s.stop s [] s.ahead := by
  have h₁ := h.le_stop
  have h₂ := h.stop_le
  refine ⟨rfl, rfl, rfl, h.start_le, rfl, ?_, Nat.zero_le _, rfl⟩
  unfold ahead
  rw [List.length_drop, List.length_take]
  omega

theorem ahead_eq {s : FileSource} {unread rest : Bytes} (h : At contents start stop s unread rest) :
    s.ahead = rest := by
  obtain ⟨rfl, rfl, rfl, -, h⟩ := h
  exact h.ahead.symm

/-- The bytes that a read gets from the file are the next of the range. -/
theorem take_ahead {rest : Bytes} {position n : Nat} (h : rest = (contents.take stop).drop position)
    (hn : n ≤ stop - position) : (contents.drop position).take n = rest.take n := by
  rw [h, List.drop_take, List.take_take, Nat.min_eq_left hn]

theorem readsChunk (hstop : stop ≤ contents.length) (hfile : contents.length ≤ 1 <<< 63) {s : FileSource} {rest : Bytes}
    {p : Pool} {max : Nat} (h : At contents start stop s [] rest) (hp : p.Sound) (hmax : 0 < max) :
    Source.ReadsChunk (At contents start stop) p.config rest (readChunk max (s, p)) := by
  obtain ⟨rfl, rfl, rfl, hstart, h⟩ := h
  have hends := h.ends
  have hrest : s.remaining = rest.length := by unfold remaining; omega
  by_cases h0 : min s.remaining max = 0
  · unfold readChunk
    dsimp only
    rw [if_pos h0]
    exact .done (List.eq_nil_of_length_eq_zero (by omega))
  · have hle : min s.remaining max ≤ rest.length := by omega
    have hlent := Pool.lent_alloc hp (min s.remaining max)
    unfold readChunk
    dsimp only
    rw [if_neg h0]
    generalize min s.remaining max = n at h0 hle hlent ⊢
    have hlen : (rest.take n).length = n := List.length_take_of_le hle
    obtain ⟨chunk, hcommit, hready, hhomed⟩ := hlent.commit (Nat.le_of_eq hlen)
    have hread := h.read hle
    rw [← hready] at hread
    rw [hlen] at hcommit
    rw [if_neg (by omega), take_ahead h.ahead (by omega), if_neg (by omega), hcommit]
    refine .chunk ?_ ?_ ⟨rfl, rfl, rfl, ?_, hread⟩ hhomed hlent.sound hlent.config
    · rw [hready]
      exact List.ne_nil_of_length_pos (by omega)
    · rw [hready, List.take_append_drop]
    · rw [hready, hlen]
      exact Nat.add_le_add_right hstart n

theorem at_release {s : FileSource} {chunk : Buffer} {rest : Bytes} (h : At contents start stop s chunk.ready rest) :
    At contents start stop (s.release chunk) [] (chunk.ready ++ rest) := by
  unfold release
  split
  · rename_i h0
    rw [List.eq_nil_of_length_eq_zero h0] at h ⊢
    exact h
  · have hstart := h.start_le
    have hmax : max (s.position - chunk.ready.length) s.start = s.position - chunk.ready.length := by
      rw [h.start_eq]
      omega
    refine ⟨h.contents_eq, h.start_eq, h.stop_eq, ?_, ?_⟩
    · show start + 0 ≤ max (s.position - chunk.ready.length) s.start
      omega
    · show Cursor _ _ (max (s.position - chunk.ready.length) s.start) [] _
      rw [hmax]
      exact h.cursor.rewind

theorem rewinds (hstop : stop ≤ contents.length) (hfile : contents.length ≤ 1 <<< 63) :
    Source.Rewinds (At contents start stop) where
  readChunk := readsChunk hstop hfile
  take := fun {s a b rest} h => by
    refine ⟨h.contents_eq, h.start_eq, h.stop_eq, ?_, h.cursor.take⟩
    have hstart := h.start_le
    rw [List.length_append] at hstart
    omega
  release := fun {s rest chunk} hc h => by
    have hrelease : s.release chunk = s := if_pos (by rw [Buffer.length, hc]; rfl)
    show At contents start stop (s.release chunk) [] rest
    rw [hrelease]
    exact h
  remaining := fun {s unread rest} h => by
    have hends := h.cursor.ends
    show rest.length ≤ min s.stop s.contents.length - s.position
    rw [h.stop_eq, h.contents_eq]
    omega
  rewind := at_release

end FileSource

/-! ### Scripts -/

namespace ScriptSource

/-- A script of chunks that are not empty, up to the end of the stream. -/
def At (s : ScriptSource) (_ rest : Bytes) : Prop :=
  ∃ chunks : List Bytes, (∀ b ∈ chunks, b ≠ []) ∧ rest = chunks.flatten ∧
    (s.items = chunks.map .chunk ∨ ∃ more, s.items = chunks.map .chunk ++ .endOfStream :: more)

theorem length_flatten_le (chunks : List Bytes) (more : List ScriptItem) :
    chunks.flatten.length ≤ itemsLength (chunks.map .chunk ++ more) := by
  induction chunks with
  | nil => exact Nat.zero_le _
  | cons b chunks ih =>
    rw [List.flatten_cons, List.length_append]
    exact Nat.add_le_add_left ih b.length

theorem delivers : Source.Delivers At where
  readChunk := by
    rintro s rest p max ⟨chunks, hne, rfl, hitems⟩ hp -
    show Source.ReadsChunk _ _ _ (readChunk _ _)
    cases chunks with
    | nil =>
      unfold readChunk
      rcases hitems with hitems | ⟨more, hitems⟩ <;> dsimp only <;> rw [hitems] <;> exact .done rfl
    | cons b chunks =>
      rw [List.forall_mem_cons] at hne
      obtain ⟨items, hs, hitems⟩ : ∃ items, s.items = .chunk b :: items ∧
          (items = chunks.map .chunk ∨ ∃ more, items = chunks.map .chunk ++ .endOfStream :: more) := by
        rcases hitems with hitems | ⟨more, hitems⟩
        · exact ⟨_, hitems, Or.inl rfl⟩
        · exact ⟨_, hitems, Or.inr ⟨more, rfl⟩⟩
      have hlent := Pool.lent_alloc hp b.length
      obtain ⟨chunk, hput, hready, hhomed⟩ := hlent.put (Nat.le_refl b.length)
      unfold readChunk
      dsimp only
      rw [hs]
      dsimp only
      rw [hput]
      refine .chunk ?_ ?_ ⟨chunks, hne.2, rfl, hitems⟩ hhomed hlent.sound hlent.config
      · rw [hready]
        exact hne.1
      · rw [hready, List.flatten_cons]
  take := id
  release := fun _ h => h
  remaining := by
    rintro s unread rest ⟨chunks, -, rfl, hitems⟩
    show _ ≤ itemsLength s.items
    rcases hitems with hitems | ⟨more, hitems⟩ <;> rw [hitems]
    · simpa using length_flatten_le chunks []
    · exact length_flatten_le chunks (.endOfStream :: more)

end ScriptSource

end CompactWire

import CompactWire.Proofs.Lending
import CompactWire.Source.Use

/-!
# CompactWire.Proofs.Ranges — sources keep to their range

A new source stands at the start of its range.  However it is used, it never leaves it: a chunk takes it on by the bytes
that come, of which there are no more than were left, and what is handed back takes it back to the start at most, even a
buffer that is not its own (`keep_to_range`).  So the number of bytes left is never below zero.  Asking for a chunk is
broken off, and the source stays where it is, if the pool would have to make more storage than there can be: a range may
go on past the end of the file, so more can be asked for than there is (`broken_off`).

`Rule` is what a kind of source has to keep to in every single use, wherever it stands in its range; `KeepsTo` says what
comes of it over all histories.  That the position stays within the range needs nothing of the pool; that a chunk has all
the bytes that it should have needs one that lends what it is asked for.
-/

namespace CompactWire

open Outcome

/-! ### Places -/

namespace Place

variable {p q : Place} {n max : Nat}

/-- The position is in the range. -/
structure Within (p : Place) : Prop where
  start_le : p.start ≤ p.position
  le_stop : p.position ≤ p.stop

/-- The same range, with a position in it. -/
structure Moved (p q : Place) : Prop where
  range : q = { p with position := q.position }
  within : q.Within

theorem Within.moved (h : p.Within) : p.Moved p := ⟨rfl, h⟩

theorem Moved.trans {r : Place} (h : p.Moved q) (h' : q.Moved r) : p.Moved r := by
  refine ⟨?_, h'.within⟩
  rw [h'.range, h.range]

theorem Within.remaining (h : p.Within) : p.remaining = .ok (p.stop - p.position) :=
  if_neg (Nat.not_lt.2 h.le_stop)

theorem Within.advance (h : p.Within) (hn : n ≤ p.stop - p.position) : p.Moved (p.advance n) := by
  have hstart := h.start_le
  have hstop := h.le_stop
  refine ⟨rfl, ?_, ?_⟩
  · show p.start ≤ p.position + n
    omega
  · show p.position + n ≤ p.stop
    omega

/-- However far it goes back, it goes back to the start at most. -/
theorem Within.rewind (h : p.Within) (n : Nat) : p.Moved (p.rewind n) := by
  have hstart := h.start_le
  have hstop := h.le_stop
  refine ⟨rfl, ?_, ?_⟩
  · show p.start ≤ Nat.max (p.position - n) p.start
    exact Nat.le_max_right _ _
  · show Nat.max (p.position - n) p.start ≤ p.stop
    exact Nat.max_le.2 ⟨by omega, by omega⟩

/-- Nothing goes back where nothing is handed back. -/
theorem Within.rewind_zero (h : p.Within) : p.rewind 0 = p := by
  have hstay : Nat.max (p.position - 0) p.start = p.position := Nat.max_eq_left h.start_le
  show { p with position := Nat.max (p.position - 0) p.start } = p
  rw [hstay]

theorem portion_le (p : Place) (max : Nat) : p.portion max ≤ p.stop - p.position := Nat.min_le_left _ _

/-- The next chunk would be empty only where nothing is left or nothing is asked for. -/
theorem Within.portion_eq_zero (h : p.Within) : p.portion max = 0 ↔ p.remaining = .ok 0 ∨ max = 0 := by
  rw [h.remaining, Except.ok.injEq]
  unfold portion
  cases p.chunkSize with
  | none =>
    show min _ max = 0 ↔ _
    omega
  | some size =>
    have hsize := size.property
    show min _ (min max size.val) = 0 ↔ _
    omega

end Place

/-! ### What a source keeps to -/

namespace Source

variable {σ : Type} {place : σ → Place} {fault? : Nat → σ → Option IoFault} {s s' : σ} {max : Nat} {pool : Pool}

/-- What comes of asking a source for at most `max` bytes, where `fault?` tells why so many could not be read. -/
structure Answers (place : σ → Place) (fault? : Nat → σ → Option IoFault) (max : Nat) (s : σ) (pool : Pool)
    (o : EStateM.Result Error (σ × Pool) (Option Buffer)) : Prop where
  /-- There is no chunk just where nothing is left or nothing is asked for. -/
  end_iff : answer o = .ok none ↔ (place s).remaining = .ok 0 ∨ max = 0
  end_stays (h : answer o = .ok none) : (left o).1 = s
  /-- A chunk holds the bytes from the position on, all that there should be, and takes the source on by as many. -/
  chunk (b : Buffer) (h : answer o = .ok (some b)) :
    b.ready = ((place s).data.drop (place s).position).take ((place s).portion max) ∧
      b.ready.length = (place s).portion max ∧
      place (left o).1 = (place s).advance ((place s).portion max)
  /-- It is broken off just where the pool would have to make more storage than there can be. -/
  broken_iff : answer o = .error (.aborted .capacity) ↔
    (place s).portion max ≠ 0 ∧ Region.maxSize < pool.made ((place s).portion max)
  /-- With a pool of sizes that there can be, that is where there cannot be a chunk of the size. -/
  broken_iff_of_le (h : pool.config.maxSize ≤ Region.maxSize) :
    answer o = .error (.aborted .capacity) ↔ Region.maxSize < (place s).portion max
  /-- If it is not, it fails just where the bytes can not be read. -/
  error_iff (fault : IoFault) : answer o = .error (.io fault) ↔ (place s).portion max ≠ 0 ∧
    pool.made ((place s).portion max) ≤ Region.maxSize ∧ fault? ((place s).portion max) s = some fault
  /-- There is no other failure, and each leaves the source as it is. -/
  failures (e : Error) (h : answer o = .error e) :
    (e = .aborted .capacity ∨ ∃ fault, e = .io fault) ∧ (left o).1 = s

namespace Answers

theorem ended {pool' : Pool} (hs : (place s).Within) (h0 : (place s).portion max = 0) :
    Answers place fault? max s pool (.ok none (s, pool')) where
  end_iff := iff_of_true rfl (hs.portion_eq_zero.1 h0)
  end_stays _ := rfl
  chunk _ h := nomatch h
  broken_iff := iff_of_false (fun h => nomatch h) fun h => h.1 h0
  broken_iff_of_le _ := iff_of_false (fun h => nomatch h) fun h => Nat.not_lt_zero _ (h0 ▸ h)
  error_iff _ := iff_of_false (fun h => nomatch h) fun h => h.1 h0
  failures _ h := nomatch h

theorem brokenOff (hs : (place s).Within) (hpool : pool.Sound) (h0 : (place s).portion max ≠ 0)
    (hmade : Region.maxSize < pool.made ((place s).portion max)) {pool' : Pool} :
    Answers place fault? max s pool (.error (.aborted .capacity) (s, pool')) where
  end_iff := iff_of_false (fun h => nomatch h) fun h => h0 (hs.portion_eq_zero.2 h)
  end_stays h := nomatch h
  chunk _ h := nomatch h
  broken_iff := iff_of_true rfl ⟨h0, hmade⟩
  broken_iff_of_le h := iff_of_true rfl ((Pool.lt_made_iff hpool h).1 hmade)
  error_iff _ := iff_of_false (fun h => nomatch h) fun h => Nat.not_lt.2 h.2.1 hmade
  failures e h := by
    cases h
    exact ⟨Or.inl rfl, rfl⟩

variable (hs : (place s).Within) (hpool : pool.Sound) (h0 : (place s).portion max ≠ 0)
  (hmade : pool.made ((place s).portion max) ≤ Region.maxSize)
include hs hpool h0 hmade

theorem served (hfault : fault? ((place s).portion max) s = none) {b : Buffer} {pool' : Pool}
    (hready : b.ready = ((place s).data.drop (place s).position).take ((place s).portion max))
    (hlength : b.ready.length = (place s).portion max) (hplace : place s' = (place s).advance ((place s).portion max)) :
    Answers place fault? max s pool (.ok (some b) (s', pool')) where
  end_iff := iff_of_false (fun h => nomatch h) fun h => h0 (hs.portion_eq_zero.2 h)
  end_stays h := nomatch h
  chunk _ h := by
    cases h
    exact ⟨hready, hlength, hplace⟩
  broken_iff := iff_of_false (fun h => nomatch h) fun h => Nat.not_lt.2 hmade h.2
  broken_iff_of_le h := iff_of_false (fun h => nomatch h) fun hlarge =>
    Nat.not_lt.2 hmade ((Pool.lt_made_iff hpool h).2 hlarge)
  error_iff _ := iff_of_false (fun h => nomatch h) fun h => nomatch hfault.symm.trans h.2.2
  failures _ h := nomatch h

theorem failed {fault : IoFault} (hfault : fault? ((place s).portion max) s = some fault) {pool' : Pool} :
    Answers place fault? max s pool (.error (.io fault) (s, pool')) where
  end_iff := iff_of_false (fun h => nomatch h) fun h => h0 (hs.portion_eq_zero.2 h)
  end_stays h := nomatch h
  chunk _ h := nomatch h
  broken_iff := iff_of_false (fun h => nomatch h) fun h => Nat.not_lt.2 hmade h.2
  broken_iff_of_le h := iff_of_false (fun h => nomatch h) fun hlarge =>
    Nat.not_lt.2 hmade ((Pool.lt_made_iff hpool h).2 hlarge)
  error_iff fault' := by
    rw [hfault]
    constructor
    · intro h
      cases h
      exact ⟨h0, hmade, rfl⟩
    · rintro ⟨-, -, h⟩
      cases h
      rfl
  failures e h := by
    cases h
    exact ⟨Or.inr ⟨fault, rfl⟩, rfl⟩

end Answers

variable [Source σ]

/-- What a kind of source has to keep to in every use, wherever in its range it stands. -/
structure Rule (place : σ → Place) (fault? : Nat → σ → Option IoFault) : Prop where
  moved (s : σ) (use : SourceUse) : (place s).Within → (place s).Moved (place (use.after place s))
  read (s : σ) (max : Nat) (pool : Pool) : (place s).Within → pool.Sound →
    Answers place fault? max s pool (request ((place s).loan max) max (s, pool))
  release (s : σ) (chunk : Buffer) : (place s).Within →
    place (Source.release chunk s) = (place s).rewind chunk.length

/-- What holds of a source after a history. -/
structure KeepsTo (place : σ → Place) (fault? : Nat → σ → Option IoFault) (s : σ) (uses : List SourceUse) : Prop where
  /-- It serves the same range, and stands in it. -/
  moved : (place s).Moved (place (uses.foldl (SourceUse.after place) s))
  /-- What is left is a number. -/
  remaining : ∃ n, (place (uses.foldl (SourceUse.after place) s)).remaining = .ok n
  read (max : Nat) (pool : Pool) : pool.Sound →
    let s' := uses.foldl (SourceUse.after place) s
    Answers place fault? max s' pool (request ((place s').loan max) max (s', pool))
  release (chunk : Buffer) : place (Source.release chunk (uses.foldl (SourceUse.after place) s)) =
    (place (uses.foldl (SourceUse.after place) s)).rewind chunk.length

/-- **Over all histories**: what keeps to the rule in every use never leaves its range. -/
theorem Rule.keepsTo (h : Rule place fault?) (hs : (place s).Within) (uses : List SourceUse) :
    KeepsTo place fault? s uses := by
  have hmoved : (place s).Moved (place (uses.foldl (SourceUse.after place) s)) := by
    induction uses generalizing s with
    | nil => exact hs.moved
    | cons use uses ih =>
      have hstep := h.moved s use hs
      exact hstep.trans (ih hstep.within)
  exact ⟨hmoved, ⟨_, hmoved.within.remaining⟩, fun max pool => h.read _ max pool hmoved.within,
    fun chunk => h.release _ chunk hmoved.within⟩

/-- A request is as reading a chunk, if there is no chunk or it can be stored. -/
theorem request_eq {loan : Option Nat} (h : ∀ length, loan = some length → pool.made length ≤ Region.maxSize) :
    request loan max (s, pool) = reported (readChunk max (s, pool)) := by
  have hnone : (loan.filter fun length => Region.maxSize < pool.made length) = none := by
    cases loan with
    | none => rfl
    | some length =>
      rw [Option.filter_some, if_neg]
      exact mt of_decide_eq_true (Nat.not_lt.2 (h length rfl))
  unfold request
  dsimp only
  rw [hnone]

theorem request_broken {length : Nat} (h : Region.maxSize < pool.made length) :
    request (some length) max (s, pool) = .error (.aborted .capacity) (s, pool.broken length) := by
  unfold request
  dsimp only
  rw [Option.filter_some, if_pos (decide_eq_true h)]

/-- What a request gives is told by what reading a chunk gives where there is none or it can be stored. -/
theorem Answers.of_readChunk (hs : (place s).Within) (hpool : pool.Sound)
    (h : (place s).portion max = 0 ∨ (place s).portion max ≠ 0 ∧ pool.made ((place s).portion max) ≤ Region.maxSize →
      Answers place fault? max s pool (reported (readChunk max (s, pool)))) :
    Answers place fault? max s pool (request ((place s).loan max) max (s, pool)) := by
  by_cases h0 : (place s).portion max = 0
  · have hloan : (place s).loan max = none := if_pos h0
    have hread : request none max (s, pool) = reported (readChunk max (s, pool)) := request_eq fun _ h => nomatch h
    rw [hloan, hread]
    exact h (Or.inl h0)
  have hloan : (place s).loan max = some ((place s).portion max) := if_neg h0
  rw [hloan]
  by_cases hmade : pool.made ((place s).portion max) ≤ Region.maxSize
  · rw [request_eq fun _ h => Option.some.inj h ▸ hmade]
    exact h (Or.inr ⟨h0, hmade⟩)
  · have hlarge := Nat.not_le.1 hmade
    rw [request_broken hlarge]
    exact .brokenOff hs hpool h0 hlarge

end Source

theorem SourceUse.after_read {σ : Type} [Source σ] (place : σ → Place) (s : σ) (max : Nat) (pool : Pool) :
    (read max pool).after place s = s ∨
      (read max pool).after place s = (left (Source.readChunk max (s, pool))).1 := by
  unfold after Source.request Source.reported
  dsimp only
  cases ((place s).loan max).filter fun length => Region.maxSize < pool.made length with
  | some length => exact Or.inl rfl
  | none =>
    refine Or.inr ?_
    dsimp only
    cases Source.readChunk max (s, pool) <;> rfl

/-! ### Bytes in memory -/

namespace MemorySource

variable {s : MemorySource} {max : Nat} {pool : Pool}

theorem readChunk_of_zero (h : s.place.portion max = 0) : readChunk max (s, pool) = .ok none (s, pool) := by
  unfold readChunk
  exact if_pos h

/-- As many bytes come as find room in the buffer. -/
theorem readChunk_of_ne_zero (h : s.place.portion max ≠ 0) : readChunk max (s, pool) =
    let loan := pool.alloc (s.place.portion max)
    let put := loan.1.put ((s.data.drop s.position).take (s.place.portion max))
    .ok (some put.2) ({ s with
      position := s.position + put.1
      outstanding := s.outstanding + 1
      reads := s.reads + 1 }, loan.2) := by
  unfold readChunk
  exact if_neg h

theorem place_release (s : MemorySource) (chunk : Buffer) : (s.release chunk).place = s.place.rewind chunk.length := by
  have hback : s.position - chunk.length = Nat.max (s.position - chunk.length) 0 := (Nat.max_zero _).symm
  show (⟨s.data, 0, s.position - chunk.length, s.data.length, some s.chunkSize⟩ : Place) = _
  rw [hback]
  rfl

theorem rule : Source.Rule place fun _ _ => none where
  moved s use hs := by
    cases use with
    | read max pool =>
      rcases SourceUse.after_read place s max pool with hstays | hread
      · rw [hstays]
        exact hs.moved
      rw [hread]
      show s.place.Moved (place (left (readChunk max (s, pool))).1)
      by_cases h0 : s.place.portion max = 0
      · rw [readChunk_of_zero h0]
        exact hs.moved
      · rw [readChunk_of_ne_zero h0]
        refine hs.advance (Nat.le_trans (Nat.min_le_left _ _) (Nat.le_trans (List.length_take_le _ _) ?_))
        exact s.place.portion_le max
    | release chunk =>
      show s.place.Moved (s.release chunk).place
      rw [place_release]
      exact hs.rewind _
  read s max pool hs hpool := by
    refine .of_readChunk hs hpool ?_
    show _ → Source.Answers _ _ max s pool (Source.reported (readChunk max (s, pool)))
    rintro (h0 | ⟨h0, hmade⟩)
    · rw [readChunk_of_zero h0]
      exact .ended hs h0
    · have hle : s.place.portion max ≤ (s.data.drop s.position).length := by
        rw [List.length_drop]
        exact s.place.portion_le max
      have hlength := List.length_take_of_le hle
      obtain ⟨b, hput, hready, -⟩ := (Pool.lent_alloc hpool (s.place.portion max)).put (Nat.le_of_eq hlength)
      rw [readChunk_of_ne_zero h0]
      dsimp only
      rw [hput, hlength]
      exact .served hs hpool h0 hmade rfl hready (hready ▸ hlength) rfl
  release s chunk _ := place_release s chunk

end MemorySource

/-! ### A range of a file -/

namespace FileSource

variable {s : FileSource} {max : Nat} {pool : Pool}

theorem readChunk_of_zero (h : s.place.portion max = 0) : readChunk max (s, pool) = .ok none (s, pool) := by
  unfold readChunk
  exact if_pos h

theorem fault?_eq_none_iff {n : Nat} :
    s.fault? n = none ↔ s.position < 1 <<< 63 ∧ s.position + n ≤ s.contents.length := by
  unfold fault?
  by_cases hoffset : 1 <<< 63 ≤ s.position
  · rw [if_pos hoffset]
    exact iff_of_false (fun h => nomatch h) fun h => Nat.not_lt.2 hoffset h.1
  rw [if_neg hoffset]
  by_cases hshort : s.contents.length < s.position + n
  · rw [if_pos hshort]
    exact iff_of_false (fun h => nomatch h) fun h => Nat.not_lt.2 h.2 hshort
  · rw [if_neg hshort]
    exact iff_of_true rfl ⟨Nat.not_le.1 hoffset, Nat.not_lt.1 hshort⟩

theorem length_slice {n : Nat} (h : s.fault? n = none) : ((s.contents.drop s.position).take n).length = n := by
  have hinside := (fault?_eq_none_iff.1 h).2
  rw [List.length_take, List.length_drop]
  omega

/-- Bytes that the file does not give leave the source as it is. -/
theorem readChunk_of_fault {fault : IoFault} (h0 : s.place.portion max ≠ 0)
    (hfault : s.fault? (s.place.portion max) = some fault) (pool : Pool) :
    ∃ pool', readChunk max (s, pool) = .error fault (s, pool') := by
  have hread : readChunk max (s, pool) = _ := if_neg h0
  rw [hread]
  unfold fault? at hfault
  by_cases hoffset : 1 <<< 63 ≤ s.position
  · rw [if_pos hoffset] at hfault
    cases hfault
    exact ⟨_, if_pos hoffset⟩
  · rw [if_neg hoffset] at hfault
    dsimp only
    rw [if_neg hoffset]
    split at hfault
    · rename_i hshort
      cases hfault
      refine ⟨_, if_pos ?_⟩
      show ((s.contents.drop s.position).take (s.place.portion max)).length < s.place.portion max
      rw [List.length_take, List.length_drop]
      omega
    · cases hfault

/-- Bytes that the file gives are published once they are in the buffer. -/
theorem readChunk_of_none (h0 : s.place.portion max ≠ 0) (hfault : s.fault? (s.place.portion max) = none) (pool : Pool) :
    readChunk max (s, pool) =
      let loan := pool.alloc (s.place.portion max)
      let chunk := loan.1.write ((s.contents.drop s.position).take (s.place.portion max))
      match chunk.commit (s.place.portion max) with
      | .ok chunk => .ok (some chunk) ({ s with position := s.position + s.place.portion max }, loan.2)
      | .error fault => .error (.assertion fault) (s, loan.2.release chunk) := by
  have hread : readChunk max (s, pool) = _ := if_neg h0
  rw [hread]
  have hoffset := (fault?_eq_none_iff.1 hfault).1
  dsimp only
  rw [if_neg (Nat.not_le.2 hoffset)]
  exact if_neg (Nat.not_lt.2 (Nat.le_of_eq (length_slice hfault).symm))

theorem place_release (hs : s.place.Within) (chunk : Buffer) : (s.release chunk).place = s.place.rewind chunk.length := by
  unfold release
  by_cases h0 : chunk.length = 0
  · rw [if_pos h0, h0, hs.rewind_zero]
  · rw [if_neg h0]
    rfl

theorem rule : Source.Rule place fault? where
  moved s use hs := by
    cases use with
    | read max pool =>
      rcases SourceUse.after_read place s max pool with hstays | hread
      · rw [hstays]
        exact hs.moved
      rw [hread]
      show s.place.Moved (place (left (readChunk max (s, pool))).1)
      by_cases h0 : s.place.portion max = 0
      · rw [readChunk_of_zero h0]
        exact hs.moved
      cases hfault : s.fault? (s.place.portion max) with
      | some fault =>
        obtain ⟨pool', hread⟩ := readChunk_of_fault h0 hfault pool
        rw [hread]
        exact hs.moved
      | none =>
        rw [readChunk_of_none h0 hfault]
        dsimp only
        split
        · exact hs.advance (s.place.portion_le max)
        · exact hs.moved
    | release chunk =>
      show s.place.Moved (s.release chunk).place
      rw [place_release hs]
      exact hs.rewind _
  read s max pool hs hpool := by
    refine .of_readChunk hs hpool ?_
    show _ → Source.Answers _ _ max s pool (Source.reported (readChunk max (s, pool)))
    rintro (h0 | ⟨h0, hmade⟩)
    · rw [readChunk_of_zero h0]
      exact .ended hs h0
    cases hfault : s.fault? (s.place.portion max) with
    | some fault =>
      obtain ⟨pool', hread⟩ := readChunk_of_fault h0 hfault pool
      rw [hread]
      exact .failed hs hpool h0 hmade hfault
    | none =>
      have hlength := length_slice hfault
      obtain ⟨b, hcommit, hready, -⟩ := (Pool.lent_alloc hpool (s.place.portion max)).commit (Nat.le_of_eq hlength)
      rw [hlength] at hcommit
      rw [readChunk_of_none h0 hfault]
      dsimp only
      rw [hcommit]
      exact .served hs hpool h0 hmade hfault hready (hready ▸ hlength) rfl
  release s chunk hs := place_release hs chunk

end FileSource

/-! ### Both -/

/-- **Sources never leave their range**: bytes in memory in chunks of any size, and a range of a file from any offset of
64 bits on and of any length, which may go on past the end of the file.  Whatever chunks were asked for and whatever was
handed back, the position is in the range; and then what comes next are the bytes from there on, the end, or a report of
the file that changes nothing, unless there can be no storage for it. -/
theorem Source.keep_to_range (uses : List SourceUse) :
    (∀ (data : Bytes) (chunkSize : PosSize),
      KeepsTo MemorySource.place (fun _ _ => none) { data, chunkSize } uses) ∧
    ∀ (contents : Bytes) (offset limit : UInt64),
      KeepsTo FileSource.place FileSource.fault? (.range contents offset.toNat limit.toNat) uses := by
  constructor
  · intro data chunkSize
    exact MemorySource.rule.keepsTo ⟨Nat.le_refl _, Nat.zero_le _⟩ uses
  · intro contents offset limit
    have hmax : FileSource.maxOffset = 18446744073709551615 := rfl
    have hoffset := offset.toNat_lt
    refine FileSource.rule.keepsTo ⟨Nat.le_refl _, ?_⟩ uses
    show offset.toNat ≤ min (offset.toNat + limit.toNat) FileSource.maxOffset
    omega

/-- A buffer of nine bytes that is handed back to a range from 2 on, of which two bytes were read, takes it back to its
start. -/
example :
    let uses := [.read 2 (.new .standard), .release { ready := List.replicate 9 7, spare := ⟨[], 0⟩, sizeClass := none }]
    (uses.foldl (SourceUse.after FileSource.place) (.range [0, 1, 2, 3, 4, 5] 2 3)).position = 2 := by cbv

/-- A file of three bytes is taken for as many as a range can have, and all of them are asked for at once.  The file has no
part in what comes of it: neither a chunk nor the end nor a report. -/
theorem Source.broken_off :
    let s : FileSource := .range [97, 98, 99] 0 FileSource.maxOffset
    let asked := request (s.place.loan FileSource.maxOffset) FileSource.maxOffset (s, .new .standard)
    s.place.remaining = .ok FileSource.maxOffset ∧
      (∀ chunk, answer asked ≠ .ok chunk) ∧ (∀ fault, answer asked ≠ .error (.io fault)) ∧
      ∃ pool, asked = .error (.aborted .capacity) (s, pool) ∧ pool.outstanding = 1 := by
  intro s asked
  have hasked : asked = .error (.aborted .capacity) (s, (Pool.new .standard).broken FileSource.maxOffset) := rfl
  refine ⟨rfl, fun chunk h => ?_, fun fault h => ?_, _, hasked, rfl⟩
  · cases hasked ▸ h
  · cases hasked ▸ h

end CompactWire

import CompactWire.Proofs.Pulls

/-!
# CompactWire.Proofs.ZeroCopy — the loans of a transport are exact

`Reached` are the states that a transport and its spans can be in: they were used in any way, with success or without,
while others used the pool.  In each of them the chunk that is held and the spans that are kept can go back, and the
pool counts them as loans (`Reached.kept`).

`Exact` says of such a state what reading costs.  The number of chunks is told by a log of the source, and compared with
what the next chunks of the source hold.  Behind the chunk at hand, or the next one if there is none, no more than
`maxCount` chunks are read for a span: a span that they do not supply is broken off, and every other one is delivered.
No span of up to `Transport.sure` bytes is among those.
-/

namespace CompactWire

open Outcome

namespace Transport

variable {σ : Type} [Source σ]

/-! ### What is counted -/

/-- The transport, with a log of what will happen at its source. -/
def watch (t : Transport σ) : Transport (Logged σ) :=
  { source := { source := t.source }, pool := t.pool, chunkSize := t.chunkSize, held := t.held }

/-- How many chunks a call reads. -/
def pulls {α : Type} (call : EStateM Error (Transport (Logged σ)) α) (t : Transport σ) : Nat :=
  (left (call t.watch)).source.log.countP SourceEvent.isChunk

/-- How many bytes the next `k` chunks hold together. -/
def supply (k : Nat) (t : Transport σ) : Nat := Source.supply t.chunkSize.val k t.source t.pool

/-- How many bytes a span can have, with the chunks that can be counted: what is at hand, what the first chunk holds if
nothing is, and what as many more hold as can be counted. -/
def bounds (t : Transport σ) : Nat := t.buffered + t.supply (t.due + maxCount)

/-- The states of a transport over `s` that shares a pool. -/
inductive Reached (s : σ) (c : Pool.Config) (chunkSize : PosSize) : InUse σ → Prop
  | opened {pool : Pool} (sound : pool.Sound) (config : pool.config = c) :
    Reached s c chunkSize { transport := { source := s, pool, chunkSize } }
  | used {u : InUse σ} (h : Reached s c chunkSize u) (use : Use) : Reached s c chunkSize (u.after use)
  /-- Others have used the pool.  It still counts the loans that are with this transport and its spans. -/
  | shared {u : InUse σ} {pool : Pool} (h : Reached s c chunkSize u) (sound : pool.Sound) (config : pool.config = c)
    (loans : Source.chunks u.transport.held + TransportSpan.loansOf u.spans ≤ pool.outstanding) :
    Reached s c chunkSize { u with transport := u.transport.withPool pool }

/-- What a span of `length` bytes costs, if `t` gives it out and is `t'` then. -/
structure SpanCost (length : Nat) (t : Transport σ) (span : TransportSpan) (t' : Transport σ) : Prop where
  /-- It is borrowed if all of it lies in one chunk: the one at hand, or else the next one. -/
  borrowed : Input.borrowed (Transport σ) span = true ↔ length ≤ t.buffered ∨ t.buffered = 0 ∧ length ≤ t.supply 1
  /-- No more chunks are read than supply the missing bytes. -/
  fewest (k : Nat) : pulls (readSpan length) t ≤ k ↔ length ≤ t.buffered + t.supply k
  atMostOne : Input.borrowed (Transport σ) span = true → pulls (readSpan length) t ≤ 1
  /-- Every chunk is a loan, and so is a copy. -/
  loans : t'.pool.loans = t.pool.loans + pulls (readSpan length) t + span.loans
  /-- Of the loans made, the chunk at hand and the copy are still out. -/
  outstanding : t'.pool.outstanding + Source.chunks t.held = t.pool.outstanding + Source.chunks t'.held + span.loans

/-- What reading costs in a state, and dropping gives back. -/
structure Exact (u : InUse σ) : Prop where
  /-- A byte costs a chunk if none is at hand and there is one. -/
  byte : pulls readByte u.transport =
    if u.transport.buffered = 0 ∧ 0 < Source.remaining u.transport.source then 1 else 0
  byteLoans : (left (readByte u.transport)).pool.loans = u.transport.pool.loans + pulls readByte u.transport
  /-- A span is delivered, if the chunks that can be counted supply it. -/
  span {length : Nat} : 1 ≤ length → length ≤ Input.remaining u.transport → length ≤ u.transport.bounds →
    ∃ span t', readSpan length u.transport = .ok span t' ∧ SpanCost length u.transport span t'
  /-- If they do not, it is broken off. -/
  overflow {length : Nat} : length ≤ Input.remaining u.transport → u.transport.bounds < length →
    ∃ t', readSpan length u.transport = .error (.aborted .overflow) t'
  /-- They supply as many bytes as are sure to be read, if there are as many. -/
  sure_le : min Transport.sure (Input.remaining u.transport) ≤ u.transport.bounds
  /-- While a span is kept, its loan is out, if it is a copy. -/
  drop {index : Nat} {span : TransportSpan} : u.spans[index]? = some span →
    u.transport.pool.outstanding = (u.after (.drop index)).transport.pool.outstanding + span.loans

/-! ### Calls on a transport that is watched -/

variable {At : σ → Bytes → Bytes → Prop} {portion : σ → Nat → Nat} {c : Pool.Config} {t : Transport σ} {d : Bytes}
  {length : Nat}

omit [Source σ] in
theorem offers_view {w : Transport (Logged σ)} :
    Offers (fun s => At s.source) c w d ↔ Offers At c (w.view Logged.source) d :=
  ⟨fun h => ⟨⟨h.1.sound, h.1.config, h.1.homed⟩, h.2⟩, fun h => ⟨⟨h.1.sound, h.1.config, h.1.homed⟩, h.2⟩⟩

omit [Source σ] in
/-- Why a span does not come is the same with a log. -/
theorem missed_view {beyond : Prop} {e : Error} {w : Transport (Logged σ)}
    (h : Missed beyond (fun s => At s.source) c d e w) : Missed beyond At c d e (w.view Logged.source) := by
  cases h with
  | short h empty => exact .short h (offers_view.1 empty)
  | overflow h rest => exact .overflow h (offers_view.1 rest)

section

variable (hs : Source.Portions At portion)
include hs

theorem supply_eq (h : t.Offers At c d) (k : Nat) :
    t.supply k = min (k * portion t.source t.chunkSize.val) (Source.remaining t.source) := by
  obtain ⟨hkept, rest, rfl, hat⟩ := h
  have hat' : At t.source [] rest := hs.take (t.unread.append_nil.symm ▸ hat)
  rw [hs.remaining_eq hat]
  exact hs.supply_eq t.chunkSize.property k hat' hkept.sound

theorem reach_watch (h : t.Offers At c d) (k : Nat) :
    reach (fun s : Logged σ => portion s.source) k t.watch = t.buffered + t.supply k :=
  congrArg (t.buffered + ·) (supply_eq hs h k).symm

theorem readByte_pulls (h : t.Offers At c d) :
    Ends (fun _ t' => t'.Offers At c (d.drop 1)) (Offers At c · d) (readByte t) ∧
      pulls readByte t = (if t.buffered = 0 ∧ 0 < Source.remaining t.source then 1 else 0) ∧
      (left (readByte t)).pool.loans = t.pool.loans + pulls readByte t := by
  have hlength := h.length_eq hs
  have hcosts := readByte_costs hs.logged Logged.tallies (offers_view (w := t.watch).2 h)
  have hview : readByte t = onState (view Logged.source) (readByte t.watch) := readByte_view Logged.view t.watch
  rw [hview, left_onState]
  unfold pulls
  cases hread : readByte t.watch with
  | ok b w =>
    rw [hread] at hcosts
    obtain ⟨hd, hoffers, hpulled⟩ := hcosts
    have htally : w.source.log.countP SourceEvent.isChunk = t.due := hpulled.tally_eq.trans (Nat.zero_add _)
    have hpos := List.length_pos_iff.2 hd
    refine ⟨offers_view.1 hoffers, htally.trans ?_, ?_⟩
    · unfold due
      split <;> split <;> omega
    · exact hpulled.loans.trans (congrArg (t.pool.loans + ·) htally.symm)
  | error e w =>
    rw [hread] at hcosts
    obtain ⟨rfl, hoffers, hpulled⟩ := hcosts
    have htally : w.source.log.countP SourceEvent.isChunk = 0 := hpulled.tally_eq
    refine ⟨offers_view.1 hoffers, htally.trans (if_neg ?_).symm, ?_⟩
    · rw [List.length_nil] at hlength
      omega
    · exact hpulled.loans.trans (congrArg (t.pool.loans + ·) htally.symm)

theorem readSpan_pulls (h : t.Offers At c d) (hlength : 0 < length) :
    EndsWith (fun span t' => t'.Offers At c (d.drop length) ∧ span.Homed c ∧
      (Input.borrowed (Transport σ) span = true ↔ length ≤ t.buffered ∨ t.buffered = 0 ∧ length ≤ t.supply 1) ∧
      (∀ k, pulls (readSpan length) t ≤ k ↔ length ≤ t.buffered + t.supply k) ∧
      t'.pool.loans = t.pool.loans + pulls (readSpan length) t + span.loans ∧ length ≤ t.bounds)
      (Missed (t.bounds < min length d.length) At c d) (readSpan length t) := by
  have hcosts := readSpan_costs hs.logged Logged.tallies (offers_view (w := t.watch).2 h) hlength
  have hview : readSpan length t = onState (view Logged.source) (readSpan length t.watch) :=
    readSpan_view Logged.view length t.watch
  simp only [reach_watch hs h] at hcosts
  rw [hview]
  unfold pulls
  cases hread : readSpan length t.watch with
  | ok span w =>
    rw [hread] at hcosts
    obtain ⟨hoffers, hhomed, hborrowed, ⟨k, hpulled, hfewest⟩, hwithin⟩ := hcosts
    have htally : w.source.log.countP SourceEvent.isChunk = k := hpulled.tally_eq.trans (Nat.zero_add _)
    refine ⟨offers_view.1 hoffers, hhomed, ?_, fun j => ?_, ?_, hwithin⟩
    · refine Iff.trans hborrowed ?_
      show length ≤ t.buffered ∨ t.buffered = 0 ∧ _ ↔ _
      omega
    · show w.source.log.countP SourceEvent.isChunk ≤ j ↔ _
      rw [htally, hfewest j, reach_watch hs h]
    · show w.pool.loans = t.pool.loans + w.source.log.countP SourceEvent.isChunk + span.loans
      rw [htally]
      exact hpulled.loans
  | error e w =>
    rw [hread] at hcosts
    exact missed_view hcosts

/-! ### All states -/

/-- The chunk and the spans can go back, and they are counted. -/
structure InUse.Kept (At : σ → Bytes → Bytes → Prop) (c : Pool.Config) (u : InUse σ) : Prop where
  offers : ∃ d, u.transport.Offers At c d
  homed : ∀ span ∈ u.spans, span.Homed c
  loans : ∃ others, u.transport.pool.outstanding =
    others + Source.chunks u.transport.held + TransportSpan.loansOf u.spans

omit [Source σ] hs in
/-- A span that does not come takes bytes from the front of what is to come, if anything. -/
theorem Missed.offers {beyond : Prop} {e : Error} (h : Missed beyond At c d e t) : ∃ m, t.Offers At c (d.drop m) := by
  cases h with
  | short _ empty => exact ⟨d.length, d.drop_length ▸ empty⟩
  | @overflow _ _ m rest => exact ⟨m, rest⟩

/-- A use takes bytes from the front of what is to come, if anything. -/
theorem offers_after {u : InUse σ} (h : u.transport.Offers At c d) (hspans : ∀ span ∈ u.spans, span.Homed c)
    (use : Use) :
    (∃ n, (u.after use).transport.Offers At c (d.drop n)) ∧ ∀ span ∈ (u.after use).spans, span.Homed c := by
  cases use with
  | byte =>
    have hbyte := (readByte_pulls hs h).1
    cases hread : readByte u.transport with
    | ok b t =>
      rw [hread] at hbyte
      simp only [InUse.after, hread]
      exact ⟨⟨1, hbyte⟩, hspans⟩
    | error e t =>
      rw [hread] at hbyte
      simp only [InUse.after, hread]
      exact ⟨⟨0, hbyte⟩, hspans⟩
  | span length =>
    cases length with
    | zero => exact ⟨⟨0, h⟩, List.forall_mem_cons.2 ⟨trivial, hspans⟩⟩
    | succ length =>
      have hspan := readSpan_pulls hs h length.succ_pos
      cases hread : readSpan (length + 1) u.transport with
      | ok span t =>
        rw [hread] at hspan
        simp only [InUse.after, hread]
        exact ⟨⟨length + 1, hspan.1⟩, List.forall_mem_cons.2 ⟨hspan.2.1, hspans⟩⟩
      | error e t =>
        rw [hread] at hspan
        simp only [InUse.after, hread]
        exact ⟨hspan.offers, hspans⟩
  | drop index =>
    cases hspan : u.spans[index]? with
    | none =>
      simp only [InUse.after, hspan]
      exact ⟨⟨0, h⟩, hspans⟩
    | some span =>
      have hhomed := hspans span (List.mem_of_getElem? hspan)
      simp only [InUse.after, hspan]
      refine ⟨?_, fun span hmem => hspans span (List.mem_of_mem_eraseIdx hmem)⟩
      cases span with
      | borrowed bytes => exact ⟨0, h⟩
      | assembled b => exact ⟨0, h.giveBack hhomed⟩

omit hs in
/-- A span that is kept is a loan if it is a copy. -/
theorem outstanding_drop {u : InUse σ} {index : Nat} {span : TransportSpan} (hspan : u.spans[index]? = some span)
    (hloans : TransportSpan.loansOf u.spans ≤ u.transport.pool.outstanding) :
    u.transport.pool.outstanding = (u.after (.drop index)).transport.pool.outstanding + span.loans := by
  obtain ⟨hindex, hget⟩ := List.getElem?_eq_some_iff.1 hspan
  have hperm := TransportSpan.loansOf_perm (List.getElem_cons_eraseIdx_perm hindex)
  rw [hget] at hperm
  simp only [InUse.after, hspan]
  cases span with
  | borrowed bytes => rfl
  | assembled b =>
    have hkept : TransportSpan.loansOf (u.spans.eraseIdx index) + 1 = TransportSpan.loansOf u.spans := hperm
    show u.transport.pool.outstanding = (u.transport.pool.release b).outstanding + 1
    rw [Pool.outstanding_release]
    omega

variable (hk : Source.KeepsNoBuffer σ)
include hk

theorem Reached.kept {s : σ} {chunkSize : PosSize} {u : InUse σ} (hat : At s [] d) (h : Reached s c chunkSize u) :
    u.Kept At c := by
  induction h with
  | @opened pool sound config =>
    subst config
    exact ⟨⟨d, offers_opened chunkSize sound hat⟩, fun _ hmem => absurd hmem List.not_mem_nil, pool.outstanding, rfl⟩
  | used _ use ih =>
    obtain ⟨⟨d', hoffers⟩, hhomed, others, hloans⟩ := ih
    obtain ⟨⟨_, hoffers'⟩, hhomed'⟩ := offers_after hs hoffers hhomed use
    exact ⟨⟨_, hoffers'⟩, hhomed', others, (ledger_outstanding hk others).after hloans use⟩
  | @shared u pool _ sound config loans ih =>
    obtain ⟨⟨d', hoffers⟩, hhomed, -⟩ := ih
    refine ⟨⟨d', hoffers.withPool sound config⟩, hhomed,
      pool.outstanding - (Source.chunks u.transport.held + TransportSpan.loansOf u.spans), ?_⟩
    show pool.outstanding = _ + Source.chunks u.transport.held + TransportSpan.loansOf u.spans
    omega

theorem InUse.Kept.exact {u : InUse σ} (h : u.Kept At c) : Exact u := by
  obtain ⟨⟨d, hoffers⟩, hhomed, others, hloans⟩ := h
  have hbyte := (readByte_pulls hs hoffers).2
  have hlength : Input.remaining u.transport = d.length := hoffers.length_eq hs
  refine ⟨hbyte.1, hbyte.2, fun {length} hpos hle hwithin => ?_, fun {length} hle hbeyond => ?_, ?_, fun hspan =>
    outstanding_drop hspan (hloans ▸ Nat.le_add_left _ _)⟩
  · have hcosts := readSpan_pulls hs hoffers hpos
    have houtstanding := (ledger_outstanding hk others).readSpan length hloans
    rcases readSpan_spec hs.toDelivers hs.toDelivers.fills length hoffers with
      hbroken | ⟨hshort, -⟩ | ⟨-, span, t', hread, -⟩
    · obtain ⟨t', hread⟩ := hbroken.aborted
      rw [show readSpan length u.transport = _ from hread] at hcosts
      cases hcosts with
      | overflow hbeyond => omega
    · omega
    rw [hread] at hcosts houtstanding
    obtain ⟨-, -, hborrowed, hfewest, hmade, -⟩ := hcosts
    refine ⟨span, t', hread, hborrowed, hfewest, fun hb => ?_, hmade, ?_⟩
    · rw [hfewest]
      rcases hborrowed.1 hb with hat | ⟨-, hnext⟩
      · exact Nat.le_add_right_of_le hat
      · exact Nat.le_add_left_of_le hnext
    · have houtstanding : t'.pool.outstanding =
        others + Source.chunks t'.held + (TransportSpan.loansOf u.spans + span.loans) := houtstanding
      omega
  · have hcosts := readSpan_pulls hs hoffers (Nat.zero_lt_of_lt hbeyond)
    rcases readSpan_spec hs.toDelivers hs.toDelivers.fills length hoffers with
      hbroken | ⟨hshort, -⟩ | ⟨-, span, t', hread, -⟩
    · exact hbroken.aborted
    · omega
    · rw [hread] at hcosts
      obtain ⟨-, -, -, -, -, hwithin⟩ := hcosts
      omega
  · -- a span of that length is delivered, so it is within the bounds
    generalize hwanted : min Transport.sure (Input.remaining u.transport) = length
    by_cases hpos : 0 < length
    · have hcosts := readSpan_pulls hs hoffers hpos
      rcases readSpan_spec hs.toDelivers hs.toDelivers.fills length hoffers with
        hbroken | ⟨hshort, -⟩ | ⟨-, span, t', hread, -⟩
      · have hlong : sure < length := hbroken.length_gt
        omega
      · omega
      · rw [hread] at hcosts
        exact hcosts.2.2.2.2.2
    · omega

end

/-- Ten digits in chunks of four. -/
def digits : MemorySource := { data := [48, 49, 50, 51, 52, 53, 54, 55, 56, 57], chunkSize := ⟨4, by decide⟩ }

/-- One digit was read. -/
def oneDigit : InUse MemorySource :=
  InUse.after { transport := { source := digits, pool := .new .standard, chunkSize := .mebibyte } } .byte

/-- A range of a file that holds them. -/
def someDigits : FileSource := .range digits.data 2 6

end Transport

end CompactWire

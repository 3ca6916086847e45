import CompactWire.Fetch
import CompactWire.Proofs.ZeroCopy

/-!
# CompactWire.Proofs.Shortfall — a span that asks for more than there is

A byte string that is too short for a span is left as it is.  A transport is not: it finds out that the stream ends by
reading all of it, and every chunk that was used up on the way is handed back with nothing unread.

`Spared` says that a span which is not there takes nothing, and `Drained` that it takes everything: no use gives a byte
afterwards, and closing the transport leaves its source behind all that was to come.  Over bytes in memory and over a
range within a file a transport is drained, unless the span is broken off because the chunks on the way cannot be counted
any more (`Unserved`).  So it is spared only if nothing was to come (`spared_iff`).  The one lemma behind it is that a use
takes from the front of what is to come (`offers_afterAll`): once this is empty, it stays so.
-/

namespace CompactWire.Transport

open Outcome

variable {σ : Type} [Source σ] {At : σ → Bytes → Bytes → Prop} {portion : σ → Nat → Nat} {c : Pool.Config} {d : Bytes}
  {u : InUse σ} {position : σ → Nat} {length : Nat}

/-- A span of `length` bytes is not there, and asking for it makes no difference.  `position` tells where a source is. -/
structure Spared (position : σ → Nat) (length : Nat) (u : InUse σ) : Prop where
  fails : ∃ t, readSpan length u.transport = .error .endOfInput t
  same (uses : List Use) : (u.after (.span length)).results uses = u.results uses
  position_eq (uses : List Use) : position ((u.after (.span length)).afterAll uses).transport.close.source =
    position (u.afterAll uses).transport.close.source

/-- What a use gives where nothing is to come. -/
def Use.dry : Use → Except Error Bytes
  | .byte | .span (_ + 1) => .error .endOfInput
  | .span 0 | .drop _ => .ok []

/-- A span of `length` bytes is not there, and asking for it takes all there is. -/
structure Drained (position : σ → Nat) (length : Nat) (u : InUse σ) : Prop where
  fails : ∃ t, readSpan length u.transport = .error .endOfInput t
  dry (uses : List Use) : (u.after (.span length)).results uses = uses.map Use.dry
  /-- Closing leaves the source behind all that was to come before, which nobody was given. -/
  lost (uses : List Use) : position ((u.after (.span length)).afterAll uses).transport.close.source =
    position u.transport.close.source + Input.remaining u.transport

/-- What becomes of a span of `length` bytes that is not there, if it can be stored. -/
inductive Unserved (position : σ → Nat) (length : Nat) (u : InUse σ) : Prop
  /-- The chunks that can be counted hold all there is. -/
  | drained (within : Input.remaining u.transport ≤ u.transport.bounds) (drained : Drained position length u)
  /-- They do not. -/
  | brokenOff (beyond : u.transport.bounds < Input.remaining u.transport)
    (fails : ∃ t, readSpan length u.transport = .error (.aborted .overflow) t)

/-! ### Where nothing is to come -/

section

variable (hs : Source.Portions At portion)
include hs

theorem offers_afterAll (h : u.transport.Offers At c d) (hspans : ∀ span ∈ u.spans, span.Homed c) (uses : List Use) :
    ∃ n, (u.afterAll uses).transport.Offers At c (d.drop n) := by
  induction uses generalizing u d with
  | nil => exact ⟨0, h⟩
  | cons use uses ih =>
    obtain ⟨⟨n, hoffers⟩, hhomed⟩ := offers_after hs h hspans use
    obtain ⟨m, hrest⟩ := ih hoffers hhomed
    rw [List.drop_drop] at hrest
    exact ⟨n + m, hrest⟩

theorem result_of_empty (h : u.transport.Offers At c []) (use : Use) : u.result use = use.dry := by
  cases use with
  | byte =>
    rcases readByte_spec hs.toDelivers h with ⟨-, t, hread⟩ | ⟨_, _, _, hcons, -⟩
    · simp only [InUse.result, hread, Use.dry]
    · cases hcons
  | span length =>
    cases length with
    | zero => rfl
    | succ n =>
      rcases readSpan_spec hs.toDelivers hs.toDelivers.fills (n + 1) h with hbroken | ⟨-, t, hread⟩ | ⟨hle, -⟩
      · exact absurd hbroken.ahead_gt (Nat.not_lt_zero _)
      · simp only [InUse.result, hread, Use.dry]
      · exact absurd hle (Nat.not_succ_le_zero n)
  | drop index => rfl

theorem results_of_empty (h : u.transport.Offers At c []) (hspans : ∀ span ∈ u.spans, span.Homed c)
    (uses : List Use) : u.results uses = uses.map Use.dry := by
  induction uses generalizing u with
  | nil => rfl
  | cons use uses ih =>
    obtain ⟨⟨n, hoffers⟩, hhomed⟩ := offers_after hs h hspans use
    rw [List.drop_nil] at hoffers
    rw [InUse.results, result_of_empty hs h, ih hoffers hhomed, List.map_cons]

/-! ### A span that is not there -/

theorem bounds_le (h : u.transport.Offers At c d) : u.transport.bounds ≤ d.length := by
  have hlength := h.length_eq hs
  have hsupply := supply_eq hs h (u.transport.due + maxCount)
  unfold bounds
  omega

/-- It does not come. -/
theorem readSpan_short (h : u.transport.Offers At c d) (hlength : d.length < length) :
    ∃ e t, readSpan length u.transport = .error e t ∧ Missed (u.transport.bounds < d.length) At c d e t := by
  have hmissed := readSpan_pulls hs h (Nat.zero_lt_of_lt hlength)
  have hle := bounds_le hs h
  cases hread : readSpan length u.transport with
  | ok span t =>
    rw [hread] at hmissed
    obtain ⟨-, -, -, -, -, hwithin⟩ := hmissed
    omega
  | error e t =>
    rw [hread, Nat.min_eq_right (Nat.le_of_lt hlength)] at hmissed
    exact ⟨e, t, rfl, hmissed⟩

/-- It takes all there is. -/
theorem exists_readSpan_short (h : u.transport.Offers At c d) (hlength : d.length < length)
    (hwithin : d.length ≤ u.transport.bounds) : ∃ t, readSpan length u.transport = .error .endOfInput t ∧
      u.after (.span length) = { u with transport := t } ∧ t.Offers At c [] := by
  obtain ⟨e, t, hread, hmissed⟩ := readSpan_short hs h hlength
  cases hmissed with
  | short _ hempty =>
    refine ⟨t, hread, ?_, hempty⟩
    simp only [InUse.after, hread]
  | overflow hbeyond => omega

/-- It is broken off, if the chunks that hold all there is cannot be counted. -/
theorem exists_readSpan_overflow (h : u.transport.Offers At c d) (hlength : d.length < length)
    (hbeyond : u.transport.bounds < d.length) : ∃ t, readSpan length u.transport = .error (.aborted .overflow) t := by
  obtain ⟨e, t, hread, hmissed⟩ := readSpan_short hs h hlength
  cases hmissed with
  | short hwithin => exact absurd hbeyond hwithin
  | overflow => exact ⟨t, hread⟩

variable (hr : Source.Rewinds At) {stop : Nat}
  (hstop : ∀ {s : σ} {rest : Bytes}, At s [] rest → position s + rest.length = stop)
include hr hstop

omit hs in
/-- Closed, a transport leaves its source where what it had to come begins. -/
theorem Offers.position_close {t : Transport σ} (h : t.Offers At c d) :
    position t.close.source + d.length = stop := hstop (h.close hr).1

theorem Offers.drained (h : u.transport.Offers At c d) (hspans : ∀ span ∈ u.spans, span.Homed c)
    (hlength : d.length < length) (hwithin : d.length ≤ u.transport.bounds) : Drained position length u := by
  obtain ⟨t, hread, hafter, hempty⟩ := exists_readSpan_short hs h hlength hwithin
  refine ⟨⟨t, hread⟩, fun uses => ?_, fun uses => ?_⟩ <;> rw [hafter]
  · exact results_of_empty (u := { u with transport := t }) hs hempty hspans uses
  · obtain ⟨n, hoffers⟩ := offers_afterAll (u := { u with transport := t }) hs hempty hspans uses
    rw [List.drop_nil] at hoffers
    have hremaining : Input.remaining u.transport = d.length := h.length_eq hs
    rw [hremaining, h.position_close hr hstop]
    exact hoffers.position_close hr hstop

theorem Offers.unserved (h : u.transport.Offers At c d) (hspans : ∀ span ∈ u.spans, span.Homed c)
    (hlength : d.length < length) : Unserved position length u := by
  have hremaining : Input.remaining u.transport = d.length := h.length_eq hs
  by_cases hwithin : d.length ≤ u.transport.bounds
  · exact .drained (hremaining ▸ hwithin) (h.drained hs hr hstop hspans hlength hwithin)
  · have hbeyond := Nat.not_le.1 hwithin
    exact .brokenOff (hremaining ▸ hbeyond) (exists_readSpan_overflow hs h hlength hbeyond)

theorem Offers.spared (h : u.transport.Offers At c d) (hspans : ∀ span ∈ u.spans, span.Homed c)
    (hlength : d.length < length) : Spared position length u ↔ Input.remaining u.transport = 0 := by
  have hremaining : Input.remaining u.transport = d.length := h.length_eq hs
  constructor
  · intro hspared
    cases h.unserved hs hr hstop hspans hlength with
    | drained _ hdrained =>
      have hlost := hdrained.lost []
      have hsame := hspared.position_eq []
      simp only [InUse.afterAll, List.foldl_nil] at hlost hsame
      omega
    | brokenOff _ hfails =>
      obtain ⟨t, hread⟩ := hfails
      obtain ⟨t', hread'⟩ := hspared.fails
      rw [hread] at hread'
      cases hread'
  · intro hnone
    obtain rfl := List.eq_nil_of_length_eq_zero (hremaining.symm.trans hnone)
    have hdrained := h.drained hs hr hstop hspans hlength (Nat.zero_le _)
    refine ⟨hdrained.fails, fun uses => ?_, fun uses => ?_⟩
    · rw [hdrained.dry, results_of_empty hs h hspans]
    · -- with nothing to come the source is at its end, now as later
      obtain ⟨n, hoffers⟩ := offers_afterAll hs h hspans uses
      rw [List.drop_nil] at hoffers
      have hlost := hdrained.lost uses
      rw [hnone, Nat.add_zero] at hlost
      have hbehind : position _ + 0 = stop := hoffers.position_close hr hstop
      exact hlost.trans ((h.position_close hr hstop).trans hbehind.symm)

theorem InUse.Kept.shortfall (h : u.Kept At c) (hlength : Input.remaining u.transport < length) :
    Unserved position length u ∧ (Spared position length u ↔ Input.remaining u.transport = 0) := by
  obtain ⟨⟨d, hoffers⟩, hhomed, -⟩ := h
  have hshort : d.length < length := hoffers.length_eq hs ▸ hlength
  exact ⟨hoffers.unserved hs hr hstop hhomed hshort, hoffers.spared hs hr hstop hhomed hshort⟩

end

/-- **A span that is not there** leaves a byte string as it is, and makes a transport over bytes in memory or over a range
within a file lose all that was to come, in whatever state it is and whatever others have made of the pool, as far as
that can be stored and counted.  So the transport is left as it was only if nothing was to come. -/
theorem spared_iff (length : Nat) :
    (∀ bs : Bytes, bs.length < length → Bytes.readSpan length bs = .error .endOfInput bs) ∧
    (∀ (s : MemorySource) (c : Pool.Config) (chunkSize : PosSize) (u : InUse MemorySource), Reached s c chunkSize u →
      Input.remaining u.transport < length →
        (max length c.maxSize ≤ Region.maxSize → Unserved MemorySource.position length u) ∧
        (Spared MemorySource.position length u ↔ Input.remaining u.transport = 0)) ∧
    ∀ (s : FileSource) (c : Pool.Config) (chunkSize : PosSize) (u : InUse FileSource), s.Inside →
      Reached s c chunkSize u → Input.remaining u.transport < length →
        (max length c.maxSize ≤ Region.maxSize → Unserved FileSource.position length u) ∧
        (Spared FileSource.position length u ↔ Input.remaining u.transport = 0) := by
  refine ⟨fun bs h => if_pos h, fun s c chunkSize u h hlength => ?_, fun s c chunkSize u hs h hlength => ?_⟩
  · have hkept := h.kept MemorySource.portions MemorySource.keepsNoBuffer s.at_ahead
    have hshort := hkept.shortfall MemorySource.portions MemorySource.rewinds (fun hat => hat.cursor.ends) hlength
    exact ⟨fun _ => hshort.1, hshort.2⟩
  · have hportions : Source.Portions (FileSource.At s.contents s.start s.stop) fun _ max => max :=
      FileSource.portions hs.stop_le hs.length_le
    have hkept := h.kept hportions FileSource.keepsNoBuffer (FileSource.at_ahead hs)
    have hshort := hkept.shortfall hportions (FileSource.rewinds hs.stop_le hs.length_le) (fun hat => hat.cursor.ends)
      hlength
    exact ⟨fun _ => hshort.1, hshort.2⟩

/-- Of ten digits one was read, and ten more are asked for; of the six in the range of a file seven are. -/
theorem spared_iff_digits :
    let opened : InUse FileSource :=
      { transport := { source := someDigits, pool := .new .standard, chunkSize := .mebibyte } }
    Bytes.readSpan 10 [7, 8] = .error .endOfInput [7, 8] ∧
    (Reached digits .standard .mebibyte oneDigit ∧ Input.remaining oneDigit.transport = 9 ∧
      Unserved MemorySource.position 10 oneDigit ∧ ¬Spared MemorySource.position 10 oneDigit) ∧
    someDigits.Inside ∧ Reached someDigits .standard .mebibyte opened ∧ Input.remaining opened.transport = 6 ∧
      Unserved FileSource.position 7 opened ∧ ¬Spared FileSource.position 7 opened := by
  intro opened
  have hdigit : Reached digits .standard .mebibyte oneDigit := .used (.opened (Pool.sound_new _) rfl) .byte
  have hnine : Input.remaining oneDigit.transport = 9 := by cbv
  have hinside : someDigits.Inside := FileSource.inside_range (by decide) (by decide)
  have hopened : Reached someDigits .standard .mebibyte opened := .opened (Pool.sound_new _) rfl
  have hsix : Input.remaining opened.transport = 6 := by cbv
  obtain ⟨hbytes, hmemory, -⟩ := spared_iff 10
  obtain ⟨hlost, hspared⟩ := hmemory digits .standard .mebibyte oneDigit hdigit (hnine ▸ by decide)
  obtain ⟨hlost', hspared'⟩ :=
    (spared_iff 7).2.2 someDigits .standard .mebibyte opened hinside hopened (hsix ▸ by decide)
  rw [hnine] at hspared
  rw [hsix] at hspared'
  exact ⟨hbytes [7, 8] (by decide), ⟨hdigit, hnine, hlost (by decide), mt hspared.1 (by decide)⟩, hinside, hopened, hsix,
    hlost' (by decide), mt hspared'.1 (by decide)⟩

/-- A file of three bytes. -/
def threeBytes : FileSource := .whole [10, 11, 12]

/-- A session that wants four bytes fails and loses the three that there are: the next one finds none, although it would
have found the first of them before. -/
theorem threeBytes_lost : threeBytes.Inside ∧ threeBytes.position = 0 ∧
    (∃ state, Fetch.bytes {} 1 (threeBytes, .new .standard) = .ok [10] state) ∧
    ∃ s pool, Fetch.int32 {} (threeBytes, .new .standard) = .error (.codec .endOfInput) (s, pool) ∧ s.position = 3 ∧
      ∃ state, Fetch.bytes {} 1 (s, pool) = .error (.codec .endOfInput) state := by
  refine ⟨FileSource.inside_range (by decide) (by decide), rfl, ⟨_, by cbv⟩, _, _, by cbv, by cbv, _, by cbv⟩

end CompactWire.Transport

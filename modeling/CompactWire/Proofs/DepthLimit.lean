import Mathlib
import CompactWire.Proofs.LooserLimits
import CompactWire.Proofs.RoundTrip
import CompactWire.Proofs.Skipping
import CompactWire.Reader.Nested

/-!
# CompactWire.Proofs.DepthLimit — what the limit on the depth lets through

One limit is checked against two counters: the depth of a value may not be above it, and the structs around one another
may not be more.  What was encoded is decoded exactly if both its heights keep to the limit, and else that limit is the
error (`Record.depth_limit_exact`): a run under a limit that is high enough reads the record, and the run under the
limit goes along with it or gives up with this error, for it has no other limits.

Told of every call, a reader is as it is untold, and it tells of no depth beyond one below the limit
(`Reader.neverBeyond`).
-/

namespace CompactWire

open Outcome

/-! ### Both heights -/

/-- Limits that allow deeper nesting and are the same otherwise. -/
def Limits.deeper (limits : Limits) (depth : Nat) : Limits := { limits with maxDepth := max limits.maxDepth depth }

theorem Limits.cuts_deeper (limits : Limits) (depth : Nat) :
    Cuts (· = .depthExceeded limits.maxDepth) limits (limits.deeper depth) where
  maxString := Or.inl rfl
  maxContainer := Or.inl rfl
  maxDepth := Or.inr ⟨Nat.le_max_left _ _, rfl⟩

namespace Record

variable {s : Record} {b : Bytes} {limits : Limits}

/-- Neither the values nor the structs in a record are nested more deeply than the limit tells. -/
def Shallow (limits : Limits) (s : Record) : Prop := s.height ≤ limits.maxDepth ∧ s.structHeight ≤ limits.maxDepth

instance : Decidable (s.Shallow limits) := by
  unfold Shallow; infer_instance

theorem shallow_deeper (s : Record) (limits : Limits) : s.Shallow (limits.deeper (max s.height s.structHeight)) := by
  have hle : max s.height s.structHeight ≤ (limits.deeper (max s.height s.structHeight)).maxDepth :=
    Nat.le_max_right _ _
  exact ⟨Nat.le_trans (Nat.le_max_left _ _) hle, Nat.le_trans (Nat.le_max_right _ _) hle⟩

/-- What is read is shallow. -/
theorem shallow_of_read {r' : Reader Bytes} (h : Reader.record { input := b, limits } = .ok s.normal r') :
    s.Shallow limits := by
  obtain ⟨_, _, -, ⟨hheight, hstructs, -⟩, -⟩ := (Reader.record_eq_ok (r := { input := b, limits }) rfl _ _).1 h
  rw [height_normal] at hheight
  rw [structHeight_normal] at hstructs
  exact ⟨hheight, hstructs⟩

theorem read_of_shallow (h : s.encode = .ok b) (hfits : ∀ p ∈ s.parts, p.Fits limits) (hshallow : s.Shallow limits) :
    Reader.record { input := b, limits } = .ok s.normal ({ input := [], limits } : Reader Bytes) := by
  have hread := read_encoded h hfits hshallow.1 hshallow.2 []
  rwa [List.append_nil] at hread

/-- A record that is nested too deeply is not read, and the error is the limit. -/
theorem read_of_not_shallow (h : s.encode = .ok b) (hfits : ∀ p ∈ s.parts, p.Fits limits)
    (hdeep : ¬s.Shallow limits) :
    ∃ r' : Reader Bytes, Reader.record { input := b, limits } = .error (.depthExceeded limits.maxDepth) r' := by
  let loose := limits.deeper (max s.height s.structHeight)
  have hcuts : limits.Cuts (· = .depthExceeded limits.maxDepth) loose := limits.cuts_deeper _
  have hloose : Reader.record { input := b, limits := loose } = .ok s.normal { input := [], limits := loose } :=
    read_of_shallow h hfits (shallow_deeper s limits)
  rcases Reader.gives_up_or_same (fun _ => (Limits.cutting hcuts).agrees_record) { input := b, limits } with
    ⟨_, r', herror, rfl⟩ | hsame
  · exact ⟨r', herror⟩
  · -- the run under the limit has gone along to the end, so the record is shallow after all
    have hread : onState (Reader.withLimits loose) (Reader.record { input := b, limits }) =
      .ok s.normal { input := [], limits := loose } := hsame.symm.trans hloose
    cases htight : Reader.record { input := b, limits } with
    | ok fs r' =>
      rw [htight] at hread
      obtain ⟨rfl, -⟩ := EStateM.Result.ok.inj hread
      exact absurd (shallow_of_read htight) hdeep
    | error e r' =>
      rw [htight] at hread
      cases hread

end Record

/-! ### The depth of calls -/

namespace Reader

variable {ι span : Type} [Input ι span] {enter : Nat → Reading ι Unit} {rounds maxDepth : Nat}

/-- Tells of the calls at a depth that is beyond one below the limit. -/
def tellBeyond (maxDepth : Nat) (alarm : Nat → Reading ι Unit) (depth : Nat) : Reading ι Unit :=
  if maxDepth + 1 < depth then alarm depth else return ()

theorem tellBeyond_quiet (alarm : Nat → Reading ι Unit) :
    ∀ depth ≤ maxDepth + 1, tellBeyond maxDepth alarm depth = pure () :=
  fun _ h => if_neg (Nat.not_lt.2 h)

/-- From the reader `r` nothing is read or skipped by a call with a depth beyond one below the limit: whatever is done
where such a call begins, the reading goes as it does. -/
structure NeverBeyond (r : Reader ι) : Prop where
  value (alarm : Nat → Reading ι Unit) (type : WireType) :
    valueTold (tellBeyond r.limits.maxDepth alarm) type r = Reader.value type r
  record (alarm : Nat → Reading ι Unit) : recordTold (tellBeyond r.limits.maxDepth alarm) r = Reader.record r
  skip (alarm : Nat → Reading ι Unit) (type : WireType) :
    skipTold (tellBeyond r.limits.maxDepth alarm) type r = Reader.skip type r

theorem neverBeyond (r : Reader ι) : r.NeverBeyond where
  value alarm type := by
    have heq : valueAt (tellBeyond r.limits.maxDepth alarm) r.rounds r.limits.maxDepth 0 =
        valueWithin r.rounds (r.limits.maxDepth + 1) := valueAt_eq (tellBeyond_quiet alarm) _ 0 (Nat.zero_add _)
    exact congrFun (congrFun heq type) r
  record alarm := by
    have heq : valueAt (tellBeyond r.limits.maxDepth alarm) r.rounds r.limits.maxDepth 1 =
        valueWithin r.rounds r.limits.maxDepth := valueAt_eq (tellBeyond_quiet alarm) _ 1 (Nat.add_comm _ _)
    show structOf (valueAt _ r.rounds r.limits.maxDepth 1) r.rounds r = _
    rw [heq]
    rfl
  skip alarm type := by
    have heq : skipAt (tellBeyond r.limits.maxDepth alarm) r.rounds r.limits.maxDepth 0 =
        skipWithin r.rounds (r.limits.maxDepth + 1) := skipAt_eq (tellBeyond_quiet alarm) _ 0 (Nat.zero_add _)
    exact congrFun (congrFun heq type) r

/-- A struct is passed over as a record is read. -/
theorem skip_struct (h : Input.Exact ι) : (skip .struct : Reading ι Unit) = discard record := by
  have hvalue : (value .struct : Reading ι Value) = (do return .struct (← record)) := rfl
  rw [skip_eq h, hvalue, discard_return]

end Reader

namespace Record

/-- **The limit on the depth is exact**: an encoding whose strings and containers keep to their limits is decoded, and
passed over, exactly if all values in the record lie at a depth that the limit allows and no more structs lie around one
another; otherwise the limit is the error.  On no input whatever is a value read or skipped by a call with a depth
beyond one below the limit. -/
theorem depth_limit_exact {s : Record} {b : Bytes} {limits : Limits} (h : s.encode = .ok b)
    (hfits : ∀ p ∈ s.parts, p.Fits limits) :
    (s.height ≤ limits.maxDepth ∧ s.structHeight ≤ limits.maxDepth → Record.decode limits b = .ok s.normal ∧
      Reader.skip .struct { input := b, limits } = .ok () ({ input := [], limits } : Reader Bytes)) ∧
    (¬(s.height ≤ limits.maxDepth ∧ s.structHeight ≤ limits.maxDepth) →
      Record.decode limits b = .error (.depthExceeded limits.maxDepth) ∧
      ∃ r' : Reader Bytes, Reader.skip .struct { input := b, limits } = .error (.depthExceeded limits.maxDepth) r') ∧
    ∀ {ι span : Type} [Input ι span] (r : Reader ι), r.NeverBeyond := by
  have hskip : (Reader.skip .struct : Reading Bytes Unit) = discard Reader.record := Reader.skip_struct Bytes.exact
  refine ⟨fun hshallow => ?_, fun hdeep => ?_, fun r => Reader.neverBeyond r⟩
  · have hread := read_of_shallow h hfits hshallow
    refine ⟨?_, ?_⟩
    · unfold decode
      rw [hread]
      rfl
    · rw [hskip]
      exact Reader.discard_eq_ok_iff.2 ⟨s.normal, hread⟩
  · obtain ⟨r', hread⟩ := read_of_not_shallow h hfits hdeep
    refine ⟨?_, r', ?_⟩
    · unfold decode
      rw [hread]
    · rw [hskip]
      exact Reader.discard_eq_error_iff.2 hread

/-- Two structs and two lists in turn need a depth of four levels; three structs in one another, the record counted,
need three where their values lie two levels deep. -/
theorem depth_limit_exact_turns :
    let turns : Record := [(1, .list .struct [.struct [(1, .list .struct [.struct []])]])]
    let chain : Record := [(1, .struct [(1, .struct [])])]
    let turnsBytes : Bytes := [25, 28, 25, 28, 0, 0, 0]
    (turns.encode = .ok turnsBytes ∧ chain.encode = .ok [28, 28, 0, 0, 0]) ∧
      (∀ s ∈ [turns, chain], ∀ p ∈ s.parts, p.Fits {}) ∧
      Record.decode { maxDepth := 4 } turnsBytes = .ok turns ∧
      Record.decode { maxDepth := 3 } turnsBytes = .error (.depthExceeded 3) ∧
      Record.decode { maxDepth := 2 } [28, 28, 0, 0, 0] = .error (.depthExceeded 2) := by
  intro turns chain turnsBytes
  have hturns : turns.encode = .ok turnsBytes := by cbv
  have hchain : chain.encode = .ok [28, 28, 0, 0, 0] := by cbv
  have hfits : ∀ s ∈ [turns, chain], ∀ p ∈ s.parts, p.Fits {} := by decide
  obtain ⟨hturnsFit, hchainFit⟩ := List.forall_mem_cons.1 hfits
  have hfour : ∀ p ∈ turns.parts, p.Fits { maxDepth := 4 } := hturnsFit
  have hthree : ∀ p ∈ turns.parts, p.Fits { maxDepth := 3 } := hturnsFit
  have htwo : ∀ p ∈ chain.parts, p.Fits { maxDepth := 2 } := List.forall_mem_singleton.1 hchainFit
  refine ⟨⟨hturns, hchain⟩, hfits, ?_, ?_, ?_⟩
  · exact ((depth_limit_exact hturns hfour).1 (by decide)).1
  · exact ((depth_limit_exact hturns hthree).2.1 (by decide)).1
  · exact ((depth_limit_exact hchain htwo).2.1 (by decide)).1

end Record

end CompactWire

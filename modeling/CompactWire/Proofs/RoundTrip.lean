import Mathlib
import CompactWire.Proofs.ReadGrammar
import CompactWire.Proofs.WriteGrammar

/-!
# CompactWire.Proofs.RoundTrip — records there and back

Both directions meet in the grammar.  What `Record.encode` gives is a way to write the normal form of the record, and
`Record.decode` takes all ways to write a record within its limits (`decode_encode`).  What `Record.decode` takes is of
parts that can be written, in normal form and within the limits, and so is what it is encoded to (`encode_decode`).
-/

namespace CompactWire.Record

variable {r s : Record} {b : Bytes} {limits : Limits}

/-- An encoding is read in front of whatever follows it. -/
theorem read_encoded (h : r.encode = .ok b) (hfits : ∀ p ∈ r.parts, p.Fits limits)
    (hheight : r.height ≤ limits.maxDepth) (hstructs : r.structHeight ≤ limits.maxDepth) (rest : Bytes) :
    Reader.record { input := b ++ rest, limits } = .ok r.normal ({ input := rest, limits } : Reader Bytes) := by
  have hwritten : Phrase.Written (some limits) (.fields 0 r.normal) b :=
    written_of_encode h fun p hp => (hfits p hp).allowed
  rw [← height_normal] at hheight
  rw [← structHeight_normal] at hstructs
  exact (Reader.record_eq_ok (r := { input := b ++ rest, limits }) rfl _ _).2
    ⟨b, rest, rfl, ⟨hheight, hstructs, hwritten⟩, rfl⟩

/-- **Decoding undoes encoding**: an encoding of a record that keeps to the limits decodes to the record as it was, but
for the types of its empty maps. -/
theorem decode_encode (h : r.encode = .ok b) (hfits : ∀ p ∈ r.parts, p.Fits limits)
    (hheight : r.height ≤ limits.maxDepth) (hstructs : r.structHeight ≤ limits.maxDepth) :
    Record.decode limits b = .ok r.normal := by
  rw [decode_eq_ok, height_normal, structHeight_normal]
  exact ⟨written_of_encode h fun p hp => (hfits p hp).allowed, hheight, hstructs⟩

/-- A record whose ids repeat and go down, with a typed empty map and a string. -/
def mixed : Record :=
  [(1, .bool true), (1, .i16 (-2)), (-32768, .map (some .i32) none []), (32767, .list .binary [.binary [104, 105]])]

/-- The map of `mixed` comes back without its type. -/
theorem decode_encode_mixed :
    mixed.encode = .ok [17, 4, 2, 3, 11, 255, 255, 3, 0, 9, 254, 255, 3, 24, 2, 104, 105, 0] ∧
    (∀ p ∈ mixed.parts, p.Fits { maxDepth := 2 }) ∧ mixed.height ≤ 2 ∧ mixed.structHeight ≤ 2 ∧
    Record.decode { maxDepth := 2 } [17, 4, 2, 3, 11, 255, 255, 3, 0, 9, 254, 255, 3, 24, 2, 104, 105, 0] =
      .ok [(1, .bool true), (1, .i16 (-2)), (-32768, .map none none []),
        (32767, .list .binary [.binary [104, 105]])] := by
  have hfits : ∀ p ∈ mixed.parts, p.Fits { maxDepth := 2 } := by decide
  refine ⟨by cbv, by decide, by decide, by decide, ?_⟩
  exact decode_encode (r := mixed) (by cbv) hfits (by decide) (by decide)

/-- **Encoding settles what decodes**: any byte string that decodes is one of a record which has an encoding, and this
encoding decodes, under the same limits, to the same record and so to itself. -/
theorem encode_decode (h : Record.decode limits b = .ok s) : ∃ b', s.encode = .ok b' ∧
    Record.decode limits b' = .ok s ∧ (Record.decode limits b' >>= encode) = .ok b' := by
  obtain ⟨hw, hheight, hstructs⟩ := decode_eq_ok.1 h
  have hparts : ∀ p ∈ s.parts, p.Writable ∧ p.Allowed (some limits) := hw.parts
  have hnormal : s.normal = s := hw.normal
  obtain ⟨b', henc, hg⟩ := exists_encode fun p hp => (hparts p hp).1
  have hw' := hg (some limits) fun p hp => (hparts p hp).2
  rw [hnormal] at hw'
  have hdec : Record.decode limits b' = .ok s := decode_eq_ok.2 ⟨hw', hheight, hstructs⟩
  refine ⟨b', henc, hdec, ?_⟩
  rw [hdec]
  exact henc

/-- An `i16` whose number is longer than it needs to be. -/
theorem encode_decode_long : Record.decode {} [20, 130, 128, 0, 0] = .ok [(1, .i16 1)] ∧
    ∃ b', Record.encode [(1, .i16 1)] = .ok b' ∧ Record.decode {} b' = .ok [(1, .i16 1)] ∧
      (Record.decode {} b' >>= encode) = .ok b' := by
  have h : Record.decode {} [20, 130, 128, 0, 0] = .ok [(1, .i16 1)] := by cbv
  exact ⟨h, encode_decode h⟩

end CompactWire.Record

import CompactWire.Proofs.Dumps
import CompactWire.Proofs.Footers

/-!
# CompactWire.Proofs.FooterLength — lengths that are greater than the record

A footer is read from the front of the bytes that its trailer points at, by a reader that stops where the record ends.
What stands between that and the trailer is not looked at, so the length in the trailer may be greater than that of the
record by any number of bytes.  A byte string is decoded with a look at what the reader leaves, so decoding the bytes
of a footer tells whether its length is that of its record (`Record.decode_front`).
-/

namespace CompactWire

open Outcome

/-- A byte string that begins with a record decodes to it only if nothing follows. -/
theorem Record.decode_front {limits : Limits} {used : Bytes} {r : Record} (h : decode limits used = .ok r)
    (spare : Bytes) : decode limits (used ++ spare) =
      if spare = [] then .ok r else .error (.invalidData (.trailingBytes spare.length)) := by
  by_cases hnone : spare = []
  · rw [if_pos hnone, hnone, List.append_nil, h]
  · rw [if_neg hnone, decode_append h hnone]

namespace Trailer

variable {magic c : Bytes} {pool : Pool}

/-- The bytes at the location that a footer is found at. -/
theorem slice_inside (body footer rest : Bytes) :
    ((body ++ footer ++ rest).drop body.length).take footer.length = footer := by
  rw [List.append_assoc, List.drop_left, List.take_left]

/-- **A footer is read from the front of its range**: reading gives a record exactly if the bytes that the trailer
points at begin with an encoding of it.  They decode to the record only if nothing follows in them; if so many bytes
follow, decoding fails for just these.  A file can be positioned at `1 <<< 63` offsets, so no file is longer. -/
theorem read_eq_ok_iff (options : FetchOptions) (hmagic : magic.length = 4) (hpool : pool.Sound)
    (hlength : c.length ≤ 1 <<< 63) (s : Record) :
    answer (read options magic (some c) pool) = .ok s ↔
      ∃ (l : Location) (used spare : Bytes), answer (locate options magic (some c) pool) = .ok l ∧
        (c.drop l.offset).take l.length = used ++ spare ∧ Record.decode options.limits used = .ok s ∧
        Record.decode options.limits (used ++ spare) =
          if spare = [] then .ok s else .error (.invalidData (.trailingBytes spare.length)) := by
  have hinside : ∀ {l : Location}, answer (locate options magic (some c) pool) = .ok l → ∃ body footer : Bytes,
      c = body ++ footer ++ bytes footer.length magic ∧ footer.length < 2 ^ 31 ∧ l = ⟨body.length, footer.length⟩ := by
    intro l hl
    rw [answer_locate options hlength hpool] at hl
    exact of_says_inside ((says_iff hmagic).2 hl)
  constructor
  · intro h
    obtain ⟨_, hread⟩ := answer_eq_ok.1 h
    obtain ⟨l, pool', hl, -⟩ := bind_eq_ok.1 hread
    have hlocate : answer (locate options magic (some c) pool) = .ok l := answer_eq_ok.2 ⟨pool', hl⟩
    obtain ⟨body, footer, rfl, hlt, rfl⟩ := hinside hlocate
    rw [answer_read options hmagic hlt hpool hlength] at h
    obtain ⟨spare, halone⟩ := answer_eq_ok.1 h
    obtain ⟨used, rfl, hdecode⟩ := Inspect.readRecord_eq_ok.1 halone
    exact ⟨_, used, spare, hlocate, slice_inside _ _ _, hdecode, Record.decode_front hdecode _⟩
  · rintro ⟨l, used, spare, hlocate, hrange, hdecode, -⟩
    obtain ⟨body, footer, rfl, hlt, rfl⟩ := hinside hlocate
    rw [slice_inside] at hrange
    subst hrange
    rw [answer_read options hmagic hlt hpool hlength]
    exact answer_eq_ok.2 ⟨spare, Inspect.readRecord_eq_ok.2 ⟨used, rfl, hdecode⟩⟩

/-- A record of three bytes in a footer of five, behind another byte. -/
theorem read_eq_ok_iff_spare :
    let magic : Bytes := [83, 76, 73, 80]
    let file : Bytes := [7] ++ ([20, 2, 0] ++ [9, 9]) ++ bytes 5 magic
    let pool := Pool.new .standard
    (magic.length = 4 ∧ pool.Sound ∧ file.length ≤ 1 <<< 63) ∧
      answer (read {} magic (some file) pool) = .ok [(1, .i16 1)] := by
  intro magic file pool
  have hpool : pool.Sound := Pool.sound_new .standard
  have hlocate : answer (locate {} magic (some file) pool) = .ok ⟨1, 5⟩ :=
    (answer_locate {} (by decide) hpool).trans (by decide)
  have hdecode : Record.decode {} [20, 2, 0] = .ok [(1, .i16 1)] := by cbv
  refine ⟨⟨rfl, hpool, by decide⟩, ?_⟩
  exact (read_eq_ok_iff {} rfl hpool (by decide) _).2
    ⟨⟨1, 5⟩, [20, 2, 0], [9, 9], hlocate, rfl, hdecode, Record.decode_front hdecode _⟩

/-- A footer of two bytes is accepted for a record of one byte. -/
theorem slack_accepted :
    let magic : Bytes := [83, 76, 73, 80]
    let file : Bytes := [0, 112, 2, 0, 0, 0, 83, 76, 73, 80]
    let pool := Pool.new .standard
    answer (locate {} magic (some file) pool) = .ok ⟨0, 2⟩ ∧ answer (read {} magic (some file) pool) = .ok [] ∧
      Record.decode {} ((file.drop 0).take 2) = .error (.invalidData (.trailingBytes 1)) := by
  intro magic file pool
  have hpool : pool.Sound := Pool.sound_new .standard
  have hdecode : Record.decode {} [0] = .ok [] := by cbv
  have hread := @answer_read magic {} pool [] [0, 112] rfl (by decide) hpool (by decide)
  refine ⟨(answer_locate {} (by decide) hpool).trans (by decide), hread.trans ?_, Record.decode_front hdecode [112]⟩
  exact answer_eq_ok.2 ⟨[112], Inspect.readRecord_eq_ok.2 ⟨[0], rfl, hdecode⟩⟩

end Trailer

end CompactWire

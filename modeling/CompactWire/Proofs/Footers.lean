import Mathlib
import CompactWire.Proofs.Fetching
import CompactWire.Proofs.RoundTrip

/-!
# CompactWire.Proofs.Footers — where a file says that its footer lies

`Trailer.Says magic c r` tells what the last eight bytes of a file `c` say about its footer, without a word about how
they are read: that it lies somewhere, or why it is nowhere.  Every file says just one thing (`says_iff`).

To find a footer two numbers are fetched, each with a transport of its own, and to read it a third transport is opened
over the range that they gave.  What comes of it depends on the bytes of these two ranges alone (`tracks_locate`,
`tracks_read`): neither on the size of the chunks nor on the pool, and not on what lies before the footer.
-/

namespace CompactWire

open Outcome

namespace Trailer

variable {magic c : Bytes}

/-! ### What a file says -/

/-- What the end of a file `c` says about its footer. -/
inductive Says (magic : Bytes) : Bytes → Except Failure Location → Prop
  /-- There are too few bytes for a trailer. -/
  | short {c : Bytes} (few : c.length < size) : Says magic c (.error (.fileTooShort c.length))
  /-- The last four bytes are not the magic. -/
  | foreign {front found : Bytes} (room : 4 ≤ front.length) (four : found.length = 4) (differ : found ≠ magic) :
    Says magic (front ++ found) (.error (.invalidMagic magic found))
  /-- The length is negative, or there are not as many bytes before the trailer. -/
  | outside {front : Bytes} {length : Int32} (bad : length.toInt < 0 ∨ (front.length : Int) < length.toInt) :
    Says magic (front ++ bytes length.toUInt32.toNat magic) (.error (.invalidFooterLength length))
  /-- The bytes between the body and the trailer are as many as the length tells. -/
  | inside {body footer : Bytes} (representable : footer.length < 2 ^ 31) :
    Says magic (body ++ footer ++ bytes footer.length magic) (.ok ⟨body.length, footer.length⟩)

/-- What is made of a length and of the magic that was found, with so many bytes before them. -/
def verdict (magic found : Bytes) (front : Nat) (length : Int32) : Except Failure Location :=
  if found ≠ magic then .error (.invalidMagic magic found)
  else if length.toInt < 0 ∨ (front : Int) < length.toInt then .error (.invalidFooterLength length)
  else .ok ⟨front - length.toInt.toNat, length.toInt.toNat⟩

/-- What is made of a whole file. -/
def verdictOn (magic c : Bytes) : Except Failure Location :=
  if c.length < size then .error (.fileTooShort c.length)
  else
    let trailer := c.drop (c.length - size)
    verdict magic (trailer.drop 4) (c.length - size) (Int32.ofNat (Bytes.ofLittleEndian (trailer.take 4)))

theorem verdictOn_append {front length found : Bytes} (hlength : length.length = 4) (hfound : found.length = 4) :
    verdictOn magic (front ++ (length ++ found)) =
      verdict magic found front.length (Int32.ofNat (Bytes.ofLittleEndian length)) := by
  have htotal : (front ++ (length ++ found)).length = front.length + size := by
    rw [List.length_append, List.length_append, hlength, hfound]
    rfl
  unfold verdictOn
  rw [htotal, if_neg (by omega), Nat.add_sub_cancel, List.drop_left, ← hlength]
  dsimp only
  rw [List.drop_left, List.take_left]

/-- The number that stands in a trailer is the one that was written. -/
theorem ofLittleEndian_length {n : Nat} (h : n < 2 ^ 32) :
    Bytes.ofLittleEndian (Bytes.littleEndian 4 n) = n := by
  rw [Bytes.ofLittleEndian_littleEndian]
  exact Nat.mod_eq_of_lt h

theorem Says.verdictOn_eq (hmagic : magic.length = 4) {r : Except Failure Location} (h : Says magic c r) :
    verdictOn magic c = r := by
  cases h with
  | short few => exact if_pos few
  | @foreign front found room four differ =>
    have hsplit : front ++ found = front.take (front.length - 4) ++ (front.drop (front.length - 4) ++ found) := by
      rw [← List.append_assoc, List.take_append_drop]
    have hlength : (front.drop (front.length - 4)).length = 4 := by
      rw [List.length_drop]
      omega
    rw [hsplit, verdictOn_append hlength four]
    exact if_pos differ
  | @outside front length bad =>
    have hlength := Bytes.length_littleEndian 4 length.toUInt32.toNat
    rw [bytes, verdictOn_append hlength hmagic, ofLittleEndian_length length.toUInt32.toNat_lt, ofNat_toUInt32, verdict,
      if_neg (not_not_intro rfl), if_pos bad]
  | @inside body footer representable =>
    have hlength := Bytes.length_littleEndian 4 footer.length
    have hnumber : (Int32.ofNat footer.length).toInt = footer.length := Int32.toInt_ofNat_of_lt representable
    rw [bytes, verdictOn_append hlength hmagic, ofLittleEndian_length (by omega), verdict, if_neg (not_not_intro rfl),
      hnumber, List.length_append, if_neg (by omega), Int.toNat_natCast, Nat.add_sub_cancel]

/-- Every file says something. -/
theorem exists_verdict (hmagic : magic.length = 4) (c : Bytes) : ∃ r, Says magic c r := by
  by_cases hfew : c.length < size
  · exact ⟨_, .short hfew⟩
  have hsize : size = 8 := rfl
  obtain ⟨front, length, found, rfl, hlength, hfound⟩ : ∃ front length found : Bytes,
      c = front ++ (length ++ found) ∧ length.length = 4 ∧ found.length = 4 := by
    refine ⟨c.take (c.length - 8), (c.drop (c.length - 8)).take 4, (c.drop (c.length - 8)).drop 4, ?_, ?_, ?_⟩
    · rw [List.take_append_drop, List.take_append_drop]
    · rw [List.length_take, List.length_drop]
      omega
    · rw [List.length_drop, List.length_drop]
      omega
  by_cases hmine : found = magic
  · subst hmine
    let n := Int32.ofNat (Bytes.ofLittleEndian length)
    have hwritten : length = Bytes.littleEndian 4 n.toUInt32.toNat := by
      have hlt := Bytes.ofLittleEndian_lt length
      rw [hlength] at hlt
      rw [Int32.toUInt32_ofNat', UInt32.toNat_ofNat_of_lt' hlt, ← hlength, Bytes.littleEndian_ofLittleEndian]
    by_cases hbad : n.toInt < 0 ∨ (front.length : Int) < n.toInt
    · rw [hwritten]
      exact ⟨_, .outside hbad⟩
    · -- as many bytes before the trailer are the footer
      let body := front.take (front.length - n.toInt.toNat)
      let footer := front.drop (front.length - n.toInt.toNat)
      have hfooter : footer.length = n.toInt.toNat := by
        rw [List.length_drop]
        omega
      have hlt : n.toInt < 2 ^ 31 := n.toInt_lt
      have hnonneg : 0 ≤ n := Int32.le_iff_toInt_le.2 (by show 0 ≤ n.toInt; omega)
      have hnumber : n.toUInt32.toNat = footer.length := (Int32.toNat_toUInt32_of_le hnonneg).trans hfooter.symm
      have hsplit : front ++ (length ++ found) = body ++ footer ++ bytes footer.length found := by
        rw [List.take_append_drop, bytes, ← hnumber, ← hwritten]
      rw [hsplit]
      exact ⟨_, .inside (by omega)⟩
  · rw [← List.append_assoc]
    refine ⟨_, .foreign ?_ hfound hmine⟩
    rw [List.length_append]
    omega

/-- A file says one thing. -/
theorem says_iff (hmagic : magic.length = 4) {r : Except Failure Location} :
    Says magic c r ↔ verdictOn magic c = r := by
  constructor
  · exact Says.verdictOn_eq hmagic
  · rintro rfl
    obtain ⟨r, hr⟩ := exists_verdict hmagic c
    rwa [hr.verdictOn_eq hmagic]

/-- What a footer is found in: its body in front, its own bytes, and the trailer behind. -/
theorem of_says_inside {l : Location} (h : Says magic c (.ok l)) : ∃ body footer : Bytes,
    c = body ++ footer ++ bytes footer.length magic ∧ footer.length < 2 ^ 31 ∧ l = ⟨body.length, footer.length⟩ := by
  cases h with
  | @inside body footer representable => exact ⟨body, footer, rfl, representable, rfl⟩

/-! ### What is fetched -/

/-- The number in front of the bytes to come. -/
def number : EStateM Failure Bytes Int32 := do
  return Int32.ofNat (← Fetch.failing .codec (Input.withSpan 4)).ofLittleEndian

/-- The length and the magic in front of the bytes to come. -/
def window : EStateM Failure Bytes (Int32 × Bytes) := do
  let length ← number
  let found ← Fetch.failing .codec (Input.withSpan 4)
  return (length, found)

/-- Finding a footer, with the bytes of the trailer in the place of the file. -/
def located (magic c : Bytes) : EStateM Failure Unit Location := do
  if c.length < size then throw (.fileTooShort c.length)
  let (length, found) ← fromBytes ((c.drop (c.length - size)).take size) window
  match verdict magic found (c.length - size) length with
  | .ok l => return l
  | .error e => throw e

/-- Reading a footer, with the bytes at its location in the place of the file. -/
def readFrom (limits : Limits) (magic c : Bytes) : EStateM Failure Unit Record := do
  let l ← located magic c
  fromBytes ((c.drop l.offset).take l.length) (Fetch.alone limits (Fetch.about .record Reader.record))

variable (options : FetchOptions) {stops : Failure → Prop}

theorem tracks_locate (hlength : c.length ≤ 1 <<< 63) :
    Tracks stops SoundPool (located magic c) (locate options magic (some c)) := by
  have hwindow : ∀ {At : FileSource → Bytes → Bytes → Prop}, Source.Rewinds At →
      Tracks stops (Fetch.Ahead At size) window (do
        let length ← Fetch.int32 options
        let found ← Fetch.bytes options 4
        return (length, found)) := fun hs =>
    (Fetch.tracks_int32 hs hs.toDelivers.fills options).bind fun length =>
      (Fetch.tracks_short hs hs.toDelivers.fills options (by decide)).map fun found => (length, found)
  have hopen : openFile (some c) = pure c := rfl
  unfold located locate
  rw [hopen, pure_bind]
  dsimp only
  by_cases hfew : c.length < size
  · rw [if_pos hfew, if_pos hfew]
    exact Tracks.throw _
  · rw [if_neg hfew, if_neg hfew]
    have hinside : c.length - size + size ≤ c.length := by omega
    refine (tracks_within hinside hlength (hwindow (FileSource.rewinds hinside hlength))).bind ?_
    rintro ⟨length, found⟩
    dsimp only
    unfold verdict
    by_cases hmine : found ≠ magic
    · rw [if_pos hmine, if_pos hmine]
      exact Tracks.throw _
    · rw [if_neg hmine, if_neg hmine]
      by_cases hbad : length.toInt < 0 ∨ ((c.length - size : Nat) : Int) < length.toInt
      · rw [if_pos hbad, if_pos hbad]
        exact Tracks.throw _
      · rw [if_neg hbad, if_neg hbad]
        exact Tracks.pure _

theorem answer_located (magic c : Bytes) : answer (located magic c ()) = verdictOn magic c := by
  unfold located verdictOn
  by_cases hfew : c.length < size
  · rw [if_pos hfew, if_pos hfew]
    rfl
  · rw [if_neg hfew, if_neg hfew]
    dsimp only
    have hsize : size = 8 := rfl
    have htrailer : (c.drop (c.length - size)).take size = c.drop (c.length - size) :=
      List.take_of_length_le (by rw [List.length_drop]; omega)
    rw [htrailer]
    generalize hd : c.drop (c.length - size) = d
    have hlength : d.length = 8 := by
      rw [← hd, List.length_drop]
      omega
    have hfirst := Fetch.failing_withSpan .codec (show 4 ≤ d.length by omega)
    have hsecond := Fetch.failing_withSpan .codec (show 4 ≤ (d.drop 4).length by rw [List.length_drop]; omega)
    have hfound : (d.drop 4).take 4 = d.drop 4 := List.take_of_length_le (by rw [List.length_drop]; omega)
    rw [hfound] at hsecond
    have hnumber : number d = .ok (Int32.ofNat (Bytes.ofLittleEndian (d.take 4))) (d.drop 4) := bind_of_ok hfirst
    have hwindow : window d =
        .ok (Int32.ofNat (Bytes.ofLittleEndian (d.take 4)), d.drop 4) ((d.drop 4).drop 4) :=
      (bind_of_ok hnumber).trans (bind_of_ok hsecond)
    have hfetched : fromBytes d window () = .ok (Int32.ofNat (Bytes.ofLittleEndian (d.take 4)), d.drop 4) () := by
      unfold fromBytes
      rw [hwindow]
    rw [bind_of_ok hfetched]
    dsimp only
    cases verdict magic (d.drop 4) (c.length - size) (Int32.ofNat (Bytes.ofLittleEndian (d.take 4))) <;> rfl

theorem answer_locate {pool : Pool} (hlength : c.length ≤ 1 <<< 63) (hpool : pool.Sound) :
    answer (locate options magic (some c) pool) = verdictOn magic c := by
  rw [← answer_located]
  exact (tracks_locate options hlength).answer_eq hpool

theorem tracks_readAt {l : Location} (hinside : l.offset + l.length ≤ c.length) (hlength : c.length ≤ 1 <<< 63) :
    Tracks (Fetch.Stops 1 options.limits.longest l.length) SoundPool
      (fromBytes ((c.drop l.offset).take l.length) (Fetch.alone options.limits (Fetch.about .record Reader.record)))
      (readAt options l (some c)) :=
  have hs := FileSource.rewinds hinside hlength
  tracks_within hinside hlength (Fetch.tracks_record hs hs.toDelivers.fills options)

/-- A footer is read within its file, and it is too short for anything to be broken off. -/
theorem tracks_read (hmagic : magic.length = 4) (hlength : c.length ≤ 1 <<< 63) :
    Tracks stops SoundPool (readFrom options.limits magic c) (read options magic (some c)) := by
  refine (tracks_locate options hlength).bind_of ?_
  rintro l ⟨_, _, hl⟩
  have hverdict : verdictOn magic c = .ok l := by
    rw [← answer_located, hl]
    rfl
  obtain ⟨body, footer, rfl, hshort, rfl⟩ := of_says_inside ((says_iff hmagic).2 hverdict)
  have hsure : 2 ^ 31 = Transport.sure := rfl
  have hinside : body.length + footer.length ≤ (body ++ footer ++ bytes footer.length magic).length := by
    simp only [List.length_append]
    omega
  refine (tracks_readAt options hinside hlength).mono fun e hstops =>
    absurd hstops (Fetch.not_stops Nat.one_pos (Or.inr ?_) e)
  dsimp only
  omega

/-- What is read of a footer is read from its own bytes. -/
theorem answer_read {pool : Pool} {body footer : Bytes} (hmagic : magic.length = 4)
    (hrepresentable : footer.length < 2 ^ 31) (hpool : pool.Sound)
    (hlength : (body ++ footer ++ bytes footer.length magic).length ≤ 1 <<< 63) :
    answer (read options magic (some (body ++ footer ++ bytes footer.length magic)) pool) =
      answer (Fetch.alone options.limits (Fetch.about .record Reader.record) footer) := by
  rw [(tracks_read options hmagic hlength).answer_eq (s := ()) hpool]
  have hlocated := answer_located magic (body ++ footer ++ bytes footer.length magic)
  rw [Says.verdictOn_eq hmagic (.inside hrepresentable)] at hlocated
  obtain ⟨_, hl⟩ := answer_eq_ok.1 hlocated
  have hslice : ((body ++ footer ++ bytes footer.length magic).drop body.length).take footer.length = footer := by
    rw [List.append_assoc, List.drop_left, List.take_left]
  unfold readFrom
  rw [bind_of_ok hl, hslice]
  unfold fromBytes
  cases Fetch.alone options.limits (Fetch.about .record Reader.record) footer <;> rfl

/-- **Footers are found by their trailers and read from their own bytes**: for a file of any content, the outcome is
what its end says, and says of one footer at most; the footer of a file that was put together from a body, an encoding
and a trailer is found behind the body and read; and with any other bytes before the footer, any other chunks and any
other pool, the same is read.  A file can be positioned at `1 <<< 63` offsets, so no file is longer. -/
theorem finds_footers (options : FetchOptions) {magic : Bytes} {pool : Pool} (hmagic : magic.length = 4)
    (hpool : pool.Sound) :
    (∀ (c : Bytes) (r : Except Failure Location), c.length ≤ 1 <<< 63 →
      (answer (locate options magic (some c) pool) = r ↔ Says magic c r)) ∧
    (∀ (body e : Bytes) (s : Record), s.encode = .ok e → e.length < 2 ^ 31 → (∀ p ∈ s.parts, p.Fits options.limits) →
      s.height ≤ options.limits.maxDepth → s.structHeight ≤ options.limits.maxDepth →
      let c := body ++ e ++ bytes e.length magic
      c.length ≤ 1 <<< 63 → answer (locate options magic (some c) pool) = .ok ⟨body.length, e.length⟩ ∧
        answer (read options magic (some c) pool) = .ok s.normal) ∧
    ∀ (front front' rest : Bytes) (length : Nat) (options' : FetchOptions) (pool' : Pool),
      options'.limits = options.limits → pool'.Sound →
      (front ++ rest).length ≤ 1 <<< 63 → (front' ++ rest).length ≤ 1 <<< 63 →
      answer (locate options magic (some (front ++ rest)) pool) = .ok ⟨front.length, length⟩ →
        answer (read options' magic (some (front' ++ rest)) pool') =
          answer (read options magic (some (front ++ rest)) pool) := by
  refine ⟨?_, ?_, ?_⟩
  · intro c r hlength
    rw [answer_locate options hlength hpool]
    exact (says_iff hmagic).symm
  · intro body e s he hlt hfits hheight hstructs c hlength
    constructor
    · rw [answer_locate options hlength hpool]
      exact Says.verdictOn_eq hmagic (.inside hlt)
    · have hread := Record.read_encoded he hfits hheight hstructs []
      rw [List.append_nil] at hread
      rw [answer_read options hmagic hlt hpool hlength]
      unfold Fetch.alone Fetch.about
      rw [hread]
      rfl
  · intro front front' rest length options' pool' hlimits hpool' hlength hlength' hlocate
    rw [answer_locate options hlength hpool] at hlocate
    obtain ⟨body, footer, hsplit, hlt, hl⟩ := of_says_inside ((says_iff hmagic).2 hlocate)
    -- the body is what stands before the location
    obtain ⟨hbody, -⟩ := Location.mk.inj hl
    rw [List.append_assoc] at hsplit
    obtain ⟨rfl, rfl⟩ := List.append_inj hsplit hbody
    rw [← List.append_assoc] at hlength hlength' ⊢
    rw [← List.append_assoc, answer_read options hmagic hlt hpool hlength,
      answer_read options' hmagic hlt hpool' hlength', hlimits]

/-- A footer behind two bytes, the same footer behind another one and read byte by byte, a negative length, and a file
that is too short. -/
theorem finds_footers_behind :
    let magic : Bytes := [83, 76, 73, 80]
    let pool := Pool.new .standard
    let footer : Bytes := [20, 2, 0]
    let rest : Bytes := footer ++ bytes 3 magic
    let bytewise : FetchOptions := { chunkSize := ⟨1, by decide⟩ }
    (magic.length = 4 ∧ pool.Sound) ∧ answer (locate {} magic (some ([7, 7] ++ rest)) pool) = .ok ⟨2, 3⟩ ∧
      answer (read {} magic (some ([7, 7] ++ rest)) pool) = .ok [(1, .i16 1)] ∧
      answer (read bytewise magic (some ([9] ++ rest)) pool) = .ok [(1, .i16 1)] ∧
      answer (locate {} magic (some (footer ++ bytes 4294967295 magic)) pool) = .error (.invalidFooterLength (-1)) ∧
      answer (locate {} magic (some footer) pool) = .error (.fileTooShort 3) := by
  intro magic pool footer rest bytewise
  have hmagic : magic.length = 4 := rfl
  have hpool : pool.Sound := Pool.sound_new .standard
  obtain ⟨hlocate, hencoded, hsame⟩ := finds_footers {} hmagic hpool
  obtain ⟨hat, hread⟩ := hencoded [7, 7] footer [(1, .i16 1)] (by cbv) (by decide) (by decide) (by decide) (by decide)
    (by decide)
  have hother := hsame [7, 7] [9] rest 3 bytewise pool rfl hpool (by decide) (by decide) hat
  have hbad : (-1 : Int32).toInt < 0 ∨ (footer.length : Int) < (-1 : Int32).toInt := Or.inl (by decide)
  have hnegative : Says magic (footer ++ bytes 4294967295 magic) (.error (.invalidFooterLength (-1))) := .outside hbad
  have hshort : Says magic footer (.error (.fileTooShort 3)) := .short (by decide)
  exact ⟨⟨hmagic, hpool⟩, hat, hread, hother.trans hread, (hlocate _ _ (by decide)).2 hnegative,
    (hlocate _ _ (by decide)).2 hshort⟩

end Trailer

end CompactWire

import Mathlib
import CompactWire.Inspect
import CompactWire.Proofs.Fetching
import CompactWire.Proofs.Messages
import CompactWire.Proofs.RoundTrip
import CompactWire.Proofs.SelfDelimiting
import CompactWire.Proofs.Separable

/-!
# CompactWire.Proofs.Dumps — a dump tiles its range

A dump of a range shows entries: records, or messages.  It succeeds exactly if the bytes of the range can be cut into
parts of which each is an entry and nothing else (`Inspect.Tiles`), and then it shows these entries with their numbers
and positions (`Inspect.sheet`).  More than `maxCount` entries cannot be numbered: a dump is broken off behind the first
that has no number behind it.

`listing` is the dump on the bytes of the range: an entry is read from their front, and what it leaves is listed after
it.  Each entry takes a byte at least, so the bytes bound the rounds (`listing_eq_ok`, `listing_rounds`), and fetching
the entries from the file goes along with it (`tracks_entries`).  A span that needs more chunks than can be counted would
break it off, too; with the limits of strings at `Transport.sure` or below there is none.
-/

namespace CompactWire

open Outcome

namespace Inspect

/-! ### What a dump shows -/

/-- What stands under a line of a dump. -/
inductive Entry
  | record (r : Record)
  | message (m : Message)

namespace Entry

/-- The text of an entry. -/
def text : Entry → String
  | record r => s!"{r.render}\n"
  | message m => s!"{m.1.render}\n{m.2.render}\n"

def isMessage : Entry → Bool
  | record _ => false
  | message _ => true

/-- The entry as it is read back. -/
def normal : Entry → Entry
  | record r => record r.normal
  | message m => message m.normal

/-- A byte string is read as the entry, all of it. -/
def ReadFrom (limits : Limits) (bs : Bytes) : Entry → Prop
  | record r => Record.decode limits bs = .ok r
  | message m => Message.readAlone limits bs = .ok m ([] : Bytes)

/-- The entry keeps to the limits, and the byte string is what is written for it. -/
def Encodes (limits : Limits) (bs : Bytes) : Entry → Prop
  | record r => r.encode = .ok bs ∧ (∀ p ∈ r.parts, p.Fits limits) ∧ r.height ≤ limits.maxDepth ∧
    r.structHeight ≤ limits.maxDepth
  | message m => m.Sendable ∧ m.Fits limits ∧ m.bytes = bs

end Entry

/-- Entries one after the other, each under a line with its number and the position of its first byte. -/
def sheet : (index position : Nat) → List (Bytes × Entry) → String
  | _, _, [] => ""
  | index, position, (bs, e) :: es =>
    s!"record {index} @ {position}\n" ++ e.text ++ sheet (index + 1) (position + bs.length) es

/-- The range is cut into parts which are entries of the kind that is asked for. -/
structure Tiles (limits : Limits) (message : Bool) (range : Bytes) (es : List (Bytes × Entry)) : Prop where
  covers : es.flatMap Prod.fst = range
  entries : ∀ q ∈ es, q.2.isMessage = message ∧ q.2.ReadFrom limits q.1

variable {limits : Limits} {message : Bool} {d range : Bytes} {es : List (Bytes × Entry)}

theorem Tiles.nil : Tiles limits message [] [] := ⟨rfl, List.forall_mem_nil _⟩

theorem Tiles.cons {bs : Bytes} {e : Entry} (hkind : e.isMessage = message) (hread : e.ReadFrom limits bs)
    (h : Tiles limits message range es) : Tiles limits message (bs ++ range) ((bs, e) :: es) where
  covers := by rw [List.flatMap_cons, h.covers]
  entries := List.forall_mem_cons.2 ⟨⟨hkind, hread⟩, h.entries⟩

theorem Tiles.of_cons {bs : Bytes} {e : Entry} (h : Tiles limits message d ((bs, e) :: es)) :
    ∃ range, d = bs ++ range ∧ e.isMessage = message ∧ e.ReadFrom limits bs ∧ Tiles limits message range es := by
  obtain ⟨hcovers, hentries⟩ := h
  obtain ⟨⟨hkind, hread⟩, hothers⟩ := List.forall_mem_cons.1 hentries
  exact ⟨es.flatMap Prod.fst, hcovers.symm, hkind, hread, rfl, hothers⟩

/-- An entry takes a byte at least. -/
theorem Entry.ne_nil {bs : Bytes} : ∀ {e : Entry}, e.ReadFrom limits bs → bs ≠ []
  | record _, h => Record.ne_nil_of_decode h
  | message _, h => by
    rintro rfl
    cases h

theorem Tiles.eq_nil (h : Tiles limits message [] es) : es = [] := by
  cases es with
  | nil => rfl
  | cons q es =>
    obtain ⟨range, hd, -, hread, -⟩ := h.of_cons
    exact absurd (List.append_eq_nil_iff.1 hd.symm).1 (Entry.ne_nil hread)

/-! ### The listing of a byte string -/

/-- The text of the next entry. -/
def readEntry (limits : Limits) (message : Bool) : EStateM Failure Bytes String := do
  if message then
    let (header, record) ← Fetch.alone limits Fetch.messageCalls
    return s!"{header.render}\n{record.render}\n"
  else
    let record ← Fetch.alone limits (Fetch.about .record Reader.record)
    return s!"{record.render}\n"

/-- The entries of the bytes up to the position `stop`. -/
def listing (limits : Limits) (message : Bool) (stop index : Nat) : (rounds : Nat) → EStateM Failure Bytes String
  | 0 => return ""
  | rounds + 1 => do
    let d ← get
    if d.length = 0 then return ""
    let text ← readEntry limits message
    if maxCount < index + 1 then throw (.aborted .overflow)
    let rest ← listing limits message stop (index + 1) rounds
    return s!"record {index} @ {stop - d.length}\n" ++ text ++ rest

/-- A separable reading takes the bytes that it takes alone. -/
theorem alone_eq_ok_iff {α : Type} {x : Reading Bytes α} (h : Reader.Separable { input := [], limits } x) {a : α}
    {rest : Bytes} :
    Fetch.alone limits x d = .ok a rest ↔ ∃ bs, d = bs ++ rest ∧ Fetch.alone limits x bs = .ok a [] := by
  constructor
  · intro hd
    obtain ⟨_, hx, hleft⟩ := Fetch.alone_eq_ok.1 hd
    obtain ⟨bs, _, rfl, halone, rfl⟩ := h.eq_ok_iff.1 hx
    cases hleft
    exact ⟨bs, rfl, Fetch.alone_eq_ok.2 ⟨_, halone, rfl⟩⟩
  · rintro ⟨bs, rfl, hbs⟩
    obtain ⟨_, hx, hleft⟩ := Fetch.alone_eq_ok.1 hbs
    obtain ⟨bs', rest', rfl, halone, rfl⟩ := h.eq_ok_iff.1 hx
    cases hleft
    rw [List.append_nil]
    exact Fetch.alone_eq_ok.2 ⟨_, h.eq_ok_iff.2 ⟨bs', rest, rfl, halone, rfl⟩, rfl⟩

theorem decode_eq_ok_iff {bs : Bytes} {r : Record} :
    Record.decode limits bs = .ok r ↔ Fetch.alone limits Reader.record bs = .ok r [] := by
  unfold Record.decode Fetch.alone
  cases Reader.record { input := bs, limits } with
  | ok fs r' =>
    dsimp only
    by_cases hleft : r'.input.isEmpty
    · rw [if_pos hleft, List.isEmpty_iff.1 hleft]
      simp
    · rw [if_neg hleft]
      rw [List.isEmpty_iff] at hleft
      simp [hleft]
  | error e r' => simp

theorem readAlone_eq : (Message.readAlone limits : EStateM Error Bytes Message) = Fetch.alone limits Message.read := by
  funext bs
  unfold Message.readAlone Fetch.alone
  cases Message.read { input := bs, limits } <;> rfl

theorem readRecord_eq_ok {r : Record} {rest : Bytes} :
    Fetch.alone limits (Fetch.about .record Reader.record) d = .ok r rest ↔
      ∃ bs, d = bs ++ rest ∧ Record.decode limits bs = .ok r := by
  have hplain : Fetch.alone limits (Fetch.about .record Reader.record) d = .ok r rest ↔
      Fetch.alone limits Reader.record d = .ok r rest := by
    simp only [Fetch.alone_eq_ok, Fetch.about_eq_ok]
  rw [hplain, alone_eq_ok_iff (Reader.separable_record rfl)]
  simp only [decode_eq_ok_iff]

theorem readMessage_eq_ok {m : Message} {rest : Bytes} :
    Fetch.alone limits Fetch.messageCalls d = .ok m rest ↔
      ∃ bs, d = bs ++ rest ∧ Message.readAlone limits bs = .ok m [] := by
  have hplain : Fetch.alone limits Fetch.messageCalls d = .ok m rest ↔
      Fetch.alone limits Message.read d = .ok m rest := by
    simp only [Fetch.alone_eq_ok, Fetch.messageCalls_eq_ok]
  rw [hplain, alone_eq_ok_iff (Reader.separable_message rfl)]
  simp only [readAlone_eq]

/-- An entry is read in front of what it leaves, from the bytes that it has alone. -/
theorem readEntry_eq_ok {text : String} {rest : Bytes} : readEntry limits message d = .ok text rest ↔
    ∃ bs, ∃ e : Entry, d = bs ++ rest ∧ e.isMessage = message ∧ e.ReadFrom limits bs ∧ text = e.text := by
  cases message with
  | false =>
    show (do return s!"{(← Fetch.alone limits (Fetch.about .record Reader.record)).render}\n") d = _ ↔ _
    rw [map_eq_ok]
    constructor
    · rintro ⟨r, hread, rfl⟩
      obtain ⟨bs, hd, hdecode⟩ := readRecord_eq_ok.1 hread
      exact ⟨bs, .record r, hd, rfl, hdecode, rfl⟩
    · rintro ⟨bs, e, hd, hkind, hread, rfl⟩
      cases e with
      | record r => exact ⟨r, readRecord_eq_ok.2 ⟨bs, hd, hread⟩, rfl⟩
      | message m => cases hkind
  | true =>
    have hmap := map_eq_ok (x := Fetch.alone limits Fetch.messageCalls) (s := d) (t := rest)
      (h := fun m : Message => s!"{m.1.render}\n{m.2.render}\n") (b := text)
    refine hmap.trans ?_
    constructor
    · rintro ⟨m, hread, rfl⟩
      obtain ⟨bs, hd, halone⟩ := readMessage_eq_ok.1 hread
      exact ⟨bs, .message m, hd, rfl, halone, rfl⟩
    · rintro ⟨bs, e, hd, hkind, hread, rfl⟩
      cases e with
      | record r => cases hkind
      | message m => exact ⟨m, readMessage_eq_ok.2 ⟨bs, hd, hread⟩, rfl⟩

theorem undecodable_of_readEntry {e : Failure} {rest : Bytes} (h : readEntry limits message d = .error e rest) :
    ∃ subject cause, e = .undecodable subject cause := by
  cases message with
  | false =>
    rcases bind_eq_error.1 h with hread | ⟨_, _, -, htext⟩
    · obtain ⟨_, hrecord⟩ := Fetch.error_of_alone hread
      exact ⟨_, Fetch.undecodable_of_about Reader.reported_of_record hrecord⟩
    · cases htext
  | true =>
    rcases bind_eq_error.1 h with hread | ⟨_, _, -, htext⟩
    · obtain ⟨_, hmessage⟩ := Fetch.error_of_alone hread
      exact Fetch.undecodable_of_messageCalls hmessage
    · cases htext

/-- An entry leaves fewer bytes than there were. -/
theorem length_lt_of_readEntry {text : String} {rest : Bytes} (h : readEntry limits message d = .ok text rest) :
    rest.length < d.length := by
  obtain ⟨bs, e, rfl, -, hread, -⟩ := readEntry_eq_ok.1 h
  have hpos := List.length_pos_iff.2 (Entry.ne_nil hread)
  rw [List.length_append]
  omega

variable {stop : Nat}

theorem listing_nil (index rounds : Nat) : listing limits message stop index rounds [] = .ok "" [] := by
  cases rounds <;> rfl

theorem listing_of_error (index rounds : Nat) (hd : d.length ≠ 0) {e : Failure} {rest : Bytes}
    (h : readEntry limits message d = .error e rest) :
    listing limits message stop index (rounds + 1) d = .error e rest := by
  show (if d.length = 0 then _ else _ : EStateM Failure Bytes String) d = _
  rw [if_neg hd]
  exact bind_of_error h

theorem listing_of_overflow {index : Nat} (rounds : Nat) (hcount : maxCount < index + 1) {text : String} {rest : Bytes}
    (h : readEntry limits message d = .ok text rest) :
    listing limits message stop index (rounds + 1) d = .error (.aborted .overflow) rest := by
  show (if d.length = 0 then _ else _ : EStateM Failure Bytes String) d = _
  rw [if_neg (Nat.ne_of_gt (Nat.zero_lt_of_lt (length_lt_of_readEntry h)))]
  refine (bind_of_ok h).trans ?_
  rw [if_pos hcount]
  rfl

theorem listing_of_ok {index : Nat} (rounds : Nat) (hcount : index + 1 ≤ maxCount) {text : String} {rest : Bytes}
    (h : readEntry limits message d = .ok text rest) :
    listing limits message stop index (rounds + 1) d = (do
      let others ← listing limits message stop (index + 1) rounds
      return s!"record {index} @ {stop - d.length}\n" ++ text ++ others) rest := by
  show (if d.length = 0 then _ else _ : EStateM Failure Bytes String) d = _
  rw [if_neg (Nat.ne_of_gt (Nat.zero_lt_of_lt (length_lt_of_readEntry h)))]
  refine (bind_of_ok h).trans ?_
  rw [if_neg (Nat.not_lt.2 hcount)]

/-- More rounds than bytes make no difference. -/
theorem listing_rounds : ∀ (rounds rounds' index : Nat) {d : Bytes}, d.length ≤ rounds → d.length ≤ rounds' →
    listing limits message stop index rounds d = listing limits message stop index rounds' d
  | 0, _, _, d, hle, _ => by
    rw [List.eq_nil_of_length_eq_zero (Nat.le_zero.1 hle), listing_nil, listing_nil]
  | _ + 1, 0, _, d, _, hle => by
    rw [List.eq_nil_of_length_eq_zero (Nat.le_zero.1 hle), listing_nil, listing_nil]
  | rounds + 1, rounds' + 1, index, d, hle, hle' => by
    by_cases h0 : d.length = 0
    · rw [List.eq_nil_of_length_eq_zero h0, listing_nil, listing_nil]
    cases hread : readEntry limits message d with
    | error e rest => rw [listing_of_error index rounds h0 hread, listing_of_error index rounds' h0 hread]
    | ok text rest =>
      by_cases hcount : maxCount < index + 1
      · rw [listing_of_overflow rounds hcount hread, listing_of_overflow rounds' hcount hread]
      have hlt := length_lt_of_readEntry hread
      have hothers := listing_rounds rounds rounds' (index + 1) (d := rest) (by omega) (by omega)
      rw [listing_of_ok rounds (Nat.not_lt.1 hcount) hread, listing_of_ok rounds' (Nat.not_lt.1 hcount) hread]
      cases hrest : listing limits message stop (index + 1) rounds rest with
      | error e t => rw [bind_of_error hrest, bind_of_error (hothers ▸ hrest)]
      | ok others t => rw [bind_of_ok hrest, bind_of_ok (hothers ▸ hrest)]

theorem listing_nil_eq_ok {index : Nat} (rounds position : Nat) (hindex : index ≤ maxCount) {text : String}
    {rest : Bytes} : listing limits message stop index rounds [] = .ok text rest ↔
      rest = [] ∧ ∃ es, Tiles limits message [] es ∧ index + es.length ≤ maxCount ∧ text = sheet index position es := by
  rw [listing_nil]
  constructor
  · intro h
    cases h
    exact ⟨rfl, [], Tiles.nil, hindex, rfl⟩
  · rintro ⟨rfl, es, htiles, -, rfl⟩
    rw [htiles.eq_nil]
    rfl

/-- The position behind an entry. -/
theorem stop_sub_length {bs rest : Bytes} (hstop : (bs ++ rest).length ≤ stop) :
    stop - rest.length = stop - (bs ++ rest).length + bs.length := by
  rw [List.length_append] at hstop ⊢
  omega

/-- The entries that are listed tile the bytes and have numbers, and whatever tiles them and has is listed. -/
theorem listing_eq_ok : ∀ (rounds index : Nat) {d : Bytes}, d.length ≤ rounds → d.length ≤ stop → index ≤ maxCount →
    ∀ {text : String} {rest : Bytes}, listing limits message stop index rounds d = .ok text rest ↔
      rest = [] ∧ ∃ es, Tiles limits message d es ∧ index + es.length ≤ maxCount ∧
        text = sheet index (stop - d.length) es
  | 0, index, d, hle, _, hindex, text, rest => by
    rw [List.eq_nil_of_length_eq_zero (Nat.le_zero.1 hle)]
    exact listing_nil_eq_ok 0 _ hindex
  | rounds + 1, index, d, hle, hstop, hindex, text, rest => by
    by_cases h0 : d.length = 0
    · rw [List.eq_nil_of_length_eq_zero h0]
      exact listing_nil_eq_ok (rounds + 1) _ hindex
    constructor
    · intro h
      cases hread : readEntry limits message d with
      | error e left => cases (listing_of_error index rounds h0 hread).symm.trans h
      | ok first left =>
      by_cases hcount : maxCount < index + 1
      · cases (listing_of_overflow rounds hcount hread).symm.trans h
      have hlt := length_lt_of_readEntry hread
      rw [listing_of_ok rounds (Nat.not_lt.1 hcount) hread] at h
      obtain ⟨_, hothers, rfl⟩ := map_eq_ok.1 h
      obtain ⟨hrest, es, htiles, hes, rfl⟩ :=
        (listing_eq_ok rounds (index + 1) (by omega) (by omega) (Nat.not_lt.1 hcount)).1 hothers
      obtain ⟨bs, e, rfl, hkind, hfrom, rfl⟩ := readEntry_eq_ok.1 hread
      refine ⟨hrest, (bs, e) :: es, htiles.cons hkind hfrom, ?_, ?_⟩
      · rw [List.length_cons]
        omega
      · rw [stop_sub_length hstop]
        rfl
    · rintro ⟨rfl, es, htiles, hes, rfl⟩
      cases es with
      | nil => exact absurd (congrArg List.length htiles.covers.symm) h0
      | cons q es =>
        obtain ⟨bs, e⟩ := q
        obtain ⟨left, rfl, hkind, hfrom, hothers⟩ := htiles.of_cons
        have hread : readEntry limits message (bs ++ left) = .ok e.text left :=
          readEntry_eq_ok.2 ⟨bs, e, rfl, hkind, hfrom, rfl⟩
        have hlt := length_lt_of_readEntry hread
        rw [List.length_cons] at hes
        have hrest := (listing_eq_ok rounds (index + 1) (by omega) (by omega) (by omega)).2
          ⟨rfl, es, hothers, by omega, rfl⟩
        rw [stop_sub_length hstop] at hrest
        rw [listing_of_ok rounds (by omega) hread]
        exact map_eq_ok.2 ⟨_, hrest, rfl⟩

/-- The bytes begin with so many entries that the last of them has no number behind it. -/
def Uncounted (limits : Limits) (message : Bool) (index : Nat) (d : Bytes) : Prop :=
  ∃ es rest, es.flatMap Prod.fst ++ rest = d ∧ Tiles limits message (es.flatMap Prod.fst) es ∧
    index + es.length = maxCount + 1

theorem not_uncounted_nil {index : Nat} (hindex : index ≤ maxCount) : ¬Uncounted limits message index [] := by
  rintro ⟨es, rest, hd, htiles, hes⟩
  rw [(List.append_eq_nil_iff.1 hd).1] at htiles
  rw [htiles.eq_nil, List.length_nil] at hes
  omega

/-- Behind an entry that has a number there is one entry less to count. -/
theorem uncounted_succ {index : Nat} (hindex : index + 1 ≤ maxCount) {text : String} {rest : Bytes}
    (h : readEntry limits message d = .ok text rest) :
    Uncounted limits message index d ↔ Uncounted limits message (index + 1) rest := by
  constructor
  · rintro ⟨es, left, rfl, htiles, hes⟩
    cases es with
    | nil =>
      rw [List.length_nil] at hes
      omega
    | cons q es =>
      obtain ⟨bs, e⟩ := q
      obtain ⟨others, hd, hkind, hfrom, hothers⟩ := htiles.of_cons
      obtain rfl := hothers.covers
      have hread : readEntry limits message (((bs, e) :: es).flatMap Prod.fst ++ left) =
          .ok e.text (es.flatMap Prod.fst ++ left) :=
        readEntry_eq_ok.2 ⟨bs, e, by rw [hd, List.append_assoc], hkind, hfrom, rfl⟩
      cases hread.symm.trans h
      rw [List.length_cons] at hes
      exact ⟨es, left, rfl, hothers, by omega⟩
  · rintro ⟨es, left, rfl, htiles, hes⟩
    obtain ⟨bs, e, rfl, hkind, hfrom, rfl⟩ := readEntry_eq_ok.1 h
    refine ⟨(bs, e) :: es, left, ?_, htiles.cons hkind hfrom, ?_⟩
    · rw [List.flatMap_cons, List.append_assoc]
    · rw [List.length_cons]
      omega

theorem uncounted_of_overflow {index : Nat} (hindex : index = maxCount) {text : String} {rest : Bytes}
    (h : readEntry limits message d = .ok text rest) : Uncounted limits message index d := by
  obtain ⟨bs, e, rfl, hkind, hfrom, -⟩ := readEntry_eq_ok.1 h
  refine ⟨[(bs, e)], rest, by simp, Tiles.nil.cons hkind hfrom, ?_⟩
  rw [hindex]
  rfl

theorem readEntry_of_uncounted {index : Nat} (hindex : index ≤ maxCount) (h : Uncounted limits message index d) :
    ∃ text rest, readEntry limits message d = .ok text rest := by
  obtain ⟨es, left, rfl, htiles, hes⟩ := h
  cases es with
  | nil =>
    rw [List.length_nil] at hes
    omega
  | cons q es =>
    obtain ⟨bs, e⟩ := q
    obtain ⟨others, hd, hkind, hfrom, -⟩ := htiles.of_cons
    exact ⟨e.text, others ++ left, readEntry_eq_ok.2 ⟨bs, e, by rw [hd, List.append_assoc], hkind, hfrom, rfl⟩⟩

/-- A listing is broken off just for want of numbers. -/
theorem listing_eq_overflow : ∀ (rounds index : Nat) {d : Bytes}, d.length ≤ rounds → index ≤ maxCount →
    ((∃ rest, listing limits message stop index rounds d = .error (.aborted .overflow) rest) ↔
      Uncounted limits message index d)
  | 0, index, d, hle, hindex => by
    rw [List.eq_nil_of_length_eq_zero (Nat.le_zero.1 hle), listing_nil]
    exact iff_of_false (fun ⟨_, h⟩ => nomatch h) (not_uncounted_nil hindex)
  | rounds + 1, index, d, hle, hindex => by
    by_cases h0 : d.length = 0
    · rw [List.eq_nil_of_length_eq_zero h0, listing_nil]
      exact iff_of_false (fun ⟨_, h⟩ => nomatch h) (not_uncounted_nil hindex)
    cases hread : readEntry limits message d with
    | error e left =>
      obtain ⟨subject, cause, rfl⟩ := undecodable_of_readEntry hread
      rw [listing_of_error index rounds h0 hread]
      refine iff_of_false (fun ⟨_, h⟩ => nomatch h) fun huncounted => ?_
      obtain ⟨_, _, hok⟩ := readEntry_of_uncounted hindex huncounted
      cases hread.symm.trans hok
    | ok text left =>
      by_cases hcount : maxCount < index + 1
      · rw [listing_of_overflow rounds hcount hread]
        exact iff_of_true ⟨left, rfl⟩ (uncounted_of_overflow (by omega) hread)
      have hroom := Nat.not_lt.1 hcount
      have hlt := length_lt_of_readEntry hread
      rw [listing_of_ok rounds hroom hread, uncounted_succ hroom hread,
        ← listing_eq_overflow rounds (index + 1) (by omega) hroom]
      refine exists_congr fun rest => ?_
      rw [bind_eq_error]
      refine ⟨fun h => h.resolve_right ?_, Or.inl⟩
      rintro ⟨_, _, -, htext⟩
      cases htext

theorem error_of_listing : ∀ (rounds index : Nat) {d rest : Bytes} {e : Failure},
    listing limits message stop index rounds d = .error e rest →
      e = .aborted .overflow ∨ ∃ subject cause, e = .undecodable subject cause
  | 0, _, _, _, _, h => by cases h
  | rounds + 1, index, d, rest, e, h => by
    by_cases h0 : d.length = 0
    · rw [List.eq_nil_of_length_eq_zero h0, listing_nil] at h
      cases h
    cases hread : readEntry limits message d with
    | error e' left =>
      rw [listing_of_error index rounds h0 hread] at h
      cases h
      exact Or.inr (undecodable_of_readEntry hread)
    | ok text left =>
      by_cases hcount : maxCount < index + 1
      · rw [listing_of_overflow rounds hcount hread] at h
        cases h
        exact Or.inl rfl
      rw [listing_of_ok rounds (Nat.not_lt.1 hcount) hread] at h
      rcases bind_eq_error.1 h with hothers | ⟨_, _, -, htext⟩
      · exact error_of_listing rounds (index + 1) hothers
      · cases htext

/-! ### Fetching the entries -/

variable (options : FetchOptions)

variable {contents : Bytes} {offset span : Nat} {pool : Pool}

theorem tracks_entry {At : FileSource → Bytes → Bytes → Prop} (hs : Source.Rewinds At) :
    Tracks (Fetch.Stops 1 options.limits.longest span) (Fetch.Ahead At span) (readEntry options.limits message)
      (entry options message) := by
  cases message with
  | false => exact (Fetch.tracks_record hs hs.toDelivers.fills options).map fun record => s!"{record.render}\n"
  | true => exact (Fetch.tracks_message hs hs.toDelivers.fills options).map fun m : Message =>
    s!"{m.1.render}\n{m.2.render}\n"

theorem tracks_entries {start : Nat} (hstop : stop ≤ contents.length) (hlength : contents.length ≤ 1 <<< 63) :
    ∀ (rounds index : Nat), Tracks (Fetch.Stops 1 options.limits.longest span)
      (Fetch.Ahead (FileSource.At contents start stop) span) (listing options.limits message stop index rounds)
      (entries options message index rounds)
  | 0, _ => Tracks.pure ""
  | rounds + 1, index => by
    refine Tracks.get ?_
    rintro d ⟨s, pool⟩ ⟨-, hat, -⟩
    -- what is left of the range is what is left of the bytes
    have hends : s.position + d.length = stop := hat.cursor.ends
    have hstopEq : s.stop = stop := hat.stop_eq
    have hremaining : s.remaining = d.length := by
      unfold FileSource.remaining
      omega
    have hposition : s.position = stop - d.length := by omega
    dsimp only
    rw [hremaining, hposition]
    by_cases h0 : d.length = 0
    · rw [if_pos h0, if_pos h0]
      exact Tracks.pure ""
    rw [if_neg h0, if_neg h0]
    refine (tracks_entry options (FileSource.rewinds hstop hlength)).bind fun text => ?_
    by_cases hcount : maxCount < index + 1
    · rw [if_pos hcount, if_pos hcount]
      exact (Tracks.throw _).bind fun _ => (tracks_entries hstop hlength rounds (index + 1)).map fun rest => _
    · rw [if_neg hcount, if_neg hcount]
      exact (tracks_entries hstop hlength rounds (index + 1)).map fun rest => _

/-- A range that lies within its file is listed, unless fetching an entry is broken off. -/
theorem answer_entries (hpool : pool.Sound) (hlength : contents.length ≤ 1 <<< 63)
    (hinside : offset + span ≤ contents.length) {rounds : Nat} (hrounds : span ≤ rounds) :
    let fetched := answer (Trailer.within (FileSource.range contents offset span) (entries options message 0 rounds) pool)
    (∃ e, fetched = .error e ∧ Fetch.Stops 1 options.limits.longest span e) ∨ fetched =
      answer (listing options.limits message (offset + span) 0 span ((contents.drop offset).take span)) := by
  have htracks : Tracks (Fetch.Stops 1 options.limits.longest span) Trailer.SoundPool
      (Trailer.fromBytes ((contents.drop offset).take span)
        (listing options.limits message (offset + span) 0 rounds))
      (Trailer.within (FileSource.range contents offset span) (entries options message 0 rounds)) :=
    Trailer.tracks_within hinside hlength (tracks_entries options hinside hlength rounds 0)
  have hle : ((contents.drop offset).take span).length ≤ span := List.length_take_le _ _
  refine (htracks () pool hpool).answer_eq.imp_right fun hsame => hsame.trans ?_
  unfold Trailer.fromBytes
  rw [listing_rounds rounds span 0 (Nat.le_trans hle hrounds) hle]
  cases listing options.limits message (offset + span) 0 span ((contents.drop offset).take span) <;> rfl

/-- A dump of a range that does not lie within its file is refused before anything is read. -/
theorem dump_outside {length : Option Nat} {stop : Nat}
    (hstop : stop = min (offset + length.getD (contents.length - offset)) FileSource.maxOffset)
    (h : contents.length < stop) (pool : Pool) :
    dump options offset length message (some contents) pool =
      .error (.rangeOutOfBounds offset stop contents.length) pool := by
  subst hstop
  have hopen : Trailer.openFile (some contents) = pure contents := rfl
  unfold dump
  rw [hopen, pure_bind]
  dsimp only
  rw [if_pos h]
  rfl

theorem dump_inside {length : Option Nat} (hspan : span = length.getD (contents.length - offset))
    (hinside : offset + span ≤ contents.length) :
    dump options offset length message (some contents) =
      Trailer.within (FileSource.range contents offset span) (entries options message 0 span) := by
  subst hspan
  have hopen : Trailer.openFile (some contents) = pure contents := rfl
  unfold dump
  rw [hopen, pure_bind]
  dsimp only
  rw [if_neg (by omega)]

/-! ### Dumps -/

/-- What a dump of the bytes `range` that begin at `offset` comes to. -/
structure Shows (limits : Limits) (message : Bool) (offset : Nat) (range : Bytes) (shown : Except Failure String) :
    Prop where
  /-- What is printed is the sheet of entries that tile the range, which all have numbers. -/
  ok_iff (text : String) : shown = .ok text ↔
    ∃ es, Tiles limits message range es ∧ es.length ≤ maxCount ∧ text = sheet 0 offset es
  /-- It is broken off just if so many entries come first that there are not enough numbers. -/
  overflow_iff : shown = .error (.aborted .overflow) ↔ Uncounted limits message 0 range
  /-- Where no entries tile the range otherwise, one of them can not be read. -/
  error (e : Failure) : shown = .error e → e = .aborted .overflow ∨ ∃ subject cause, e = .undecodable subject cause

theorem shows_listing (limits : Limits) (message : Bool) (offset : Nat) (hspan : range.length = span) :
    Shows limits message offset range (answer (listing limits message (offset + span) 0 span range)) where
  ok_iff text := by
    have hlist : ∀ {rest : Bytes}, listing limits message (offset + span) 0 span range = .ok text rest ↔
        rest = [] ∧ ∃ es, Tiles limits message range es ∧ es.length ≤ maxCount ∧ text = sheet 0 offset es := by
      intro rest
      have hposition : offset + span - range.length = offset := by omega
      have hiff := @listing_eq_ok limits message (offset + span) span 0 range (Nat.le_of_eq hspan) (by omega)
        (Nat.zero_le _) text rest
      simpa only [hposition, Nat.zero_add] using hiff
    rw [answer_eq_ok]
    constructor
    · rintro ⟨rest, h⟩
      exact (hlist.1 h).2
    · exact fun htiles => ⟨[], hlist.2 ⟨rfl, htiles⟩⟩
  overflow_iff := by
    rw [answer_eq_error]
    exact listing_eq_overflow span 0 (Nat.le_of_eq hspan) (Nat.zero_le _)
  error e h := by
    obtain ⟨rest, hlist⟩ := answer_eq_error.1 h
    exact error_of_listing span 0 hlist

/-- What a dump of `span` bytes from `offset` on depends on, where they lie within the file: on these bytes alone. -/
structure Confined (options : FetchOptions) (message : Bool) (contents : Bytes) (offset span : Nat)
    (shown : Except Failure String) : Prop where
  /-- The loop over the entries has come to its end: more rounds would make no difference. -/
  ends (rounds : Nat) (pool : Pool) : span ≤ rounds → pool.Sound →
    answer (Trailer.within (FileSource.range contents offset span) (entries options message 0 rounds) pool) = shown
  /-- Other chunks, another pool and other bytes outside of the range, or none behind it, would make no difference. -/
  same (options' : FetchOptions) (pool : Pool) (contents' : Bytes) : options'.limits = options.limits → pool.Sound →
    contents'.length ≤ 1 <<< 63 → offset + span ≤ contents'.length →
    (contents'.drop offset).take span = (contents.drop offset).take span →
    answer (dump options' offset (some span) message (some contents') pool) = shown

theorem answer_dump {length : Option Nat} (hspan : span = length.getD (contents.length - offset)) (hpool : pool.Sound)
    (hlength : contents.length ≤ 1 <<< 63) (hinside : offset + span ≤ contents.length) :
    let dumped := answer (dump options offset length message (some contents) pool)
    (∃ e, dumped = .error e ∧ Fetch.Stops 1 options.limits.longest span e) ∨ dumped =
      answer (listing options.limits message (offset + span) 0 span ((contents.drop offset).take span)) := by
  rw [dump_inside options hspan hinside]
  exact answer_entries options hpool hlength hinside (Nat.le_refl span)

variable {options} (hlong : options.limits.maxString ≤ Transport.sure)
include hlong

/-- No span is so long that it could be broken off. -/
theorem not_stopped {shown : Except Failure String} :
    ¬∃ e, shown = .error e ∧ Fetch.Stops 1 options.limits.longest span e :=
  fun ⟨e, _, hstops⟩ => Fetch.not_stops Nat.one_pos (Or.inl (Nat.le_trans (Nat.min_le_left _ _) hlong)) e hstops

theorem dump_eq_listing {length : Option Nat} (hspan : span = length.getD (contents.length - offset))
    (hpool : pool.Sound) (hlength : contents.length ≤ 1 <<< 63) (hinside : offset + span ≤ contents.length) :
    answer (dump options offset length message (some contents) pool) =
      answer (listing options.limits message (offset + span) 0 span ((contents.drop offset).take span)) :=
  (answer_dump options hspan hpool hlength hinside).resolve_left (not_stopped hlong)

theorem confined_dump {length : Option Nat} (hspan : span = length.getD (contents.length - offset))
    (hpool : pool.Sound) (hlength : contents.length ≤ 1 <<< 63) (hinside : offset + span ≤ contents.length) :
    Confined options message contents offset span
      (answer (dump options offset length message (some contents) pool)) where
  ends rounds pool' hrounds hpool' := by
    rw [dump_eq_listing hlong hspan hpool hlength hinside]
    exact (answer_entries options hpool' hlength hinside hrounds).resolve_left (not_stopped hlong)
  same options' pool' contents' hlimits hpool' hlength' hinside' hbytes := by
    rw [dump_eq_listing hlong hspan hpool hlength hinside, ← hbytes, ← hlimits]
    exact dump_eq_listing (hlimits ▸ hlong) rfl hpool' hlength' hinside'

omit hlong

/-- What is written for an entry is read back. -/
theorem Entry.readFrom_normal {bs : Bytes} {e : Entry} (h : e.Encodes limits bs) : e.normal.ReadFrom limits bs := by
  cases e with
  | record r =>
    obtain ⟨hencode, hfits, hheight, hstructs⟩ := h
    have hread := Record.read_encoded hencode hfits hheight hstructs []
    rw [List.append_nil] at hread
    exact decode_eq_ok_iff.2 (Fetch.alone_eq_ok.2 ⟨_, hread, rfl⟩)
  | message m =>
    obtain ⟨hsendable, hfits, rfl⟩ := h
    have hread := Message.read_bytes hsendable hfits []
    rw [List.append_nil] at hread
    show Message.readAlone limits m.bytes = .ok m.normal []
    rw [readAlone_eq]
    exact Fetch.alone_eq_ok.2 ⟨_, hread, rfl⟩

/-- What is written for entries tiles the bytes of all of them. -/
theorem tiles_of_encodes (h : ∀ q ∈ es, q.2.isMessage = message ∧ q.2.Encodes limits q.1) :
    Tiles limits message (es.flatMap Prod.fst) (es.map fun q => (q.1, q.2.normal)) where
  covers := by rw [List.flatMap_map]
  entries := by
    rw [List.forall_mem_map]
    rintro ⟨bs, e⟩ hq
    obtain ⟨hkind, hencodes⟩ := h _ hq
    refine ⟨?_, Entry.readFrom_normal hencodes⟩
    rw [← hkind]
    cases e <;> rfl

/-- Entries that tile a range, of which there are more than can be numbered. -/
theorem Tiles.uncounted (h : Tiles limits message range es) (hes : maxCount < es.length) :
    Uncounted limits message 0 range := by
  refine ⟨es.take (maxCount + 1), (es.drop (maxCount + 1)).flatMap Prod.fst, ?_, ⟨rfl, fun q hq => ?_⟩, ?_⟩
  · rw [← List.flatMap_append, List.take_append_drop, h.covers]
  · exact h.entries q (List.mem_of_mem_take hq)
  · rw [Nat.zero_add]
    exact List.length_take_of_le hes

end Inspect

end CompactWire

import CompactWire.Proofs.Dumps
import CompactWire.Proofs.Rendering

/-!
# CompactWire.Proofs.Forgery — what a dump of messages shows

The name of a message stands in a dump as it is.  So a name with line breaks makes a header of several lines
(`MessageHeader.count_render`), and one that goes on like a dump does passes for one: a message can be dumped like two.

Such a name has to hold what ends a header, with the line break behind it.  Behind any other name
(`MessageHeader.Tame`) a header ends with the first ending there is, for no ending begins inside of another
(`MessageHeader.ending_append_eq`).  The rest of a dump is legible whatever the messages hold, so dumps with tame names
are the same only if they show the same (`Inspect.sheet_inj`).
-/

namespace CompactWire

open Outcome

namespace MessageHeader

/-! ### Headers -/

/-- What ends a header behind the name, with the line break. -/
def ending (kind : Nat) (seqId : Int32) : List Char :=
  ' ' :: ("(kind=".toList ++ (toString kind).toList ++ [','] ++
    ' ' :: ("seq_id=".toList ++ (toString seqId.toInt).toList ++ [')', '\n']))

/-- The name holds nothing that ends a header. -/
def Tame (h : MessageHeader) : Prop := ∀ kind seqId, ¬ ending kind seqId <:+: h.name.toList

theorem render_append (h : MessageHeader) (x : List Char) :
    h.render.toList ++ '\n' :: x = "message ".toList ++ (h.name.toList ++ (ending h.kind h.seqId ++ x)) := by
  show ("message " ++ h.name ++ " (kind=" ++ toString h.kind ++ ", seq_id=" ++ toString h.seqId.toInt ++ ")").toList ++
    _ = _
  simp [ending]

/-- A header takes a line more than its name has line breaks. -/
theorem count_render (h : MessageHeader) : h.render.toList.count '\n' = h.name.toList.count '\n' := by
  have hkind : (toString h.kind).toList.count '\n' = 0 :=
    List.count_eq_zero.2 (notMem_word (fun _ => isWordChar_of_mem_nat) rfl)
  have hseqId : (toString h.seqId.toInt).toList.count '\n' = 0 :=
    List.count_eq_zero.2 (notMem_word (fun _ => isWordChar_of_mem_int) rfl)
  have hline := congrArg (List.count '\n') (render_append h [])
  simp only [ending, List.count_append, List.count_cons, List.count_nil, hkind, hseqId] at hline
  simpa using hline

/-- A name without line breaks is tame. -/
theorem tame_of_notMem {h : MessageHeader} (hname : '\n' ∉ h.name.toList) : h.Tame := by
  intro kind seqId hinfix
  exact hname (List.IsInfix.subset hinfix (by simp [ending]))

/-! ### The first ending -/

/-- An ending is over where the next one begins: inside of it there is one blank only, and what follows that is not
what an ending goes on with. -/
theorem ending_append_eq {kind kind' : Nat} {seqId seqId' : Int32} {w x y : List Char}
    (h : ending kind seqId ++ x = w ++ (ending kind' seqId' ++ y)) : w = [] ∨ ending kind seqId <:+: w := by
  rcases List.append_eq_append_iff.1 h with ⟨t, hw, -⟩ | ⟨t, hending, hrest⟩
  · exact .inr (List.IsPrefix.isInfix ⟨t, hw.symm⟩)
  cases t with
  | nil =>
    rw [List.append_nil] at hending
    exact .inr (hending ▸ List.infix_refl _)
  | cons c t =>
    cases w with
    | nil => exact .inl rfl
    | cons d w =>
      obtain ⟨rfl, hbehind⟩ := List.cons.inj hrest
      have hblanks := (List.cons.inj hending).2
      have hkind : ' ' ∉ "(kind=".toList ++ (toString kind).toList ++ [','] := by
        have hword := notMem_word (c := ' ') (fun _ => isWordChar_of_mem_nat (n := kind)) rfl
        simpa using hword
      have hseqId : ' ' ∉ "seq_id=".toList ++ (toString seqId.toInt).toList ++ [')', '\n'] := by
        have hword := notMem_word (c := ' ') (fun _ => isWordChar_of_mem_int (n := seqId.toInt)) rfl
        simpa using hword
      obtain ⟨-, -, rfl⟩ := (List.append_cons_inj_of_notMem hkind hseqId).1 hblanks
      simp at hbehind

theorem legible_ending (kind : Nat) (seqId : Int32) :
    Legible Anything (fun p q => p.1 = q.1 ∧ p.2 = q.2) (fun p : Nat × Int32 => ending p.1 p.2) (kind, seqId) := by
  have hseqId : Legible Breaks Eq (fun n : Int32 => (toString n.toInt).toList) seqId :=
    legible_int fun _ => Int32.toInt_inj.1
  have hfront := ((legible_nat kind).behind "(kind=".toList).before (T := Anything) (c := ',') rfl []
  have hback := ((hseqId.behind "seq_id=".toList).before (T := Anything) (c := ')') rfl ['\n']).behind [' ']
  exact (hfront.append hback).behind [' ']

/-- In front of an ending, what is left of a tame name is nothing. -/
theorem Tame.eq_nil {h : MessageHeader} {kind kind' : Nat} {seqId seqId' : Int32} {u w x y : List Char}
    (htame : h.Tame) (hname : h.name.toList = u ++ w)
    (heq : ending kind seqId ++ x = w ++ (ending kind' seqId' ++ y)) : w = [] := by
  rcases ending_append_eq heq with hw | hinfix
  · exact hw
  · refine absurd ?_ (htame kind seqId)
    rw [hname]
    exact hinfix.trans (List.suffix_append u w).isInfix

/-- Tame headers show on their lines which they are. -/
theorem render_inj {h h' : MessageHeader} (htame : h.Tame) (htame' : h'.Tame) {x y : List Char}
    (heq : h.render.toList ++ '\n' :: x = h'.render.toList ++ '\n' :: y) : h = h' ∧ x = y := by
  rw [render_append, render_append] at heq
  have hnames : h.name.toList = h'.name.toList ∧ ending h.kind h.seqId ++ x = ending h'.kind h'.seqId ++ y := by
    rcases List.append_eq_append_iff.1 (List.append_cancel_left heq) with ⟨w, hname, hrest⟩ | ⟨w, hname, hrest⟩
    · cases htame'.eq_nil hname hrest
      exact ⟨by rw [hname, List.append_nil], hrest⟩
    · cases htame.eq_nil hname hrest
      exact ⟨by rw [hname, List.append_nil], hrest.symm⟩
  obtain ⟨⟨hkind, hseqId⟩, hxy⟩ := legible_ending h.kind h.seqId (h'.kind, h'.seqId) x y trivial trivial hnames.2
  obtain ⟨name, kind, seqId⟩ := h
  obtain ⟨name', kind', seqId'⟩ := h'
  cases String.toList_inj.1 hnames.1
  cases hkind
  cases hseqId
  exact ⟨rfl, hxy⟩

end MessageHeader

namespace Inspect

/-! ### Sheets -/

namespace Entry

/-- The name in the header of a message is tame. -/
def Tame : Entry → Prop
  | record _ => True
  | message m => m.1.Tame

/-- Entries with the same header, if they have one, and with records that are equal up to doubles printed the same. -/
inductive Alike : Entry → Entry → Prop
  | record {r s : Record} (h : r.Alike s) : Alike (.record r) (.record s)
  | message {header : MessageHeader} {r s : Record} (h : r.Alike s) : Alike (.message (header, r)) (.message (header, s))

theorem text_record (r : Record) (x : List Char) : (record r).text.toList ++ x = r.render.toList ++ '\n' :: x := by
  show (r.render ++ "\n").toList ++ x = _
  simp

theorem text_message (m : Message) (x : List Char) :
    (message m).text.toList ++ x = m.1.render.toList ++ '\n' :: (m.2.render.toList ++ '\n' :: x) := by
  show (m.1.render ++ "\n" ++ m.2.render ++ "\n").toList ++ x = _
  simp

/-- The text of a record does not begin like that of a header. -/
theorem record_ne_message (r : Record) (h : MessageHeader) (x y : List Char) :
    r.render.toList ++ x ≠ h.render.toList ++ '\n' :: y := by
  intro heq
  rw [MessageHeader.render_append, Record.render, String.toList_ofList, Value.render_eq_content] at heq
  simp [Value.type, WireType.name] at heq

/-- Entries with tame names show in their texts what they are, up to doubles printed the same. -/
theorem text_inj {e f : Entry} (he : e.Tame) (hf : f.Tame) {x y : List Char}
    (h : e.text.toList ++ x = f.text.toList ++ y) : e.Alike f ∧ x = y := by
  cases e with
  | record r =>
    rw [text_record] at h
    cases f with
    | record s =>
      rw [text_record] at h
      obtain ⟨hrs, hline⟩ := Record.legible_render r s _ _ (breaks_cons rfl x) (breaks_cons rfl y) h
      exact ⟨.record hrs, (List.cons.inj hline).2⟩
    | message m =>
      rw [text_message] at h
      exact absurd h (record_ne_message r m.1 _ _)
  | message m =>
    rw [text_message] at h
    cases f with
    | record s =>
      rw [text_record] at h
      exact absurd h.symm (record_ne_message s m.1 _ _)
    | message m' =>
      rw [text_message] at h
      obtain ⟨hheader, hbody⟩ := MessageHeader.render_inj he hf h
      obtain ⟨hrs, hline⟩ := Record.legible_render m.2 m'.2 _ _ (breaks_cons rfl x) (breaks_cons rfl y) hbody
      obtain ⟨header, r⟩ := m
      obtain ⟨header', r'⟩ := m'
      cases hheader
      exact ⟨.message hrs, (List.cons.inj hline).2⟩

end Entry

/-- Where the entries begin. -/
def positions : Nat → List (Bytes × Entry) → List Nat
  | _, [] => []
  | position, (bs, _) :: es => position :: positions (position + bs.length) es

variable {limits : Limits} {message : Bool} {range : Bytes} {es fs : List (Bytes × Entry)}

theorem sheet_cons (index position : Nat) (bs : Bytes) (e : Entry) :
    (sheet index position ((bs, e) :: es)).toList = "record ".toList ++ (toString index).toList ++ " @ ".toList ++
      ((toString position).toList ++ '\n' :: (e.text.toList ++ (sheet (index + 1) (position + bs.length) es).toList)) := by
  show ("record " ++ toString index ++ " @ " ++ toString position ++ "\n" ++ e.text ++
    sheet (index + 1) (position + bs.length) es).toList = _
  simp

theorem sheet_cons_ne (index position : Nat) (q : Bytes × Entry) : (sheet index position (q :: es)).toList ≠ [] := by
  rw [sheet_cons]
  simp

/-- Sheets of entries with tame names show where the entries begin and what they are. -/
theorem sheet_inj {index p q : Nat} (hes : ∀ e ∈ es, e.2.Tame) (hfs : ∀ f ∈ fs, f.2.Tame)
    (h : (sheet index p es).toList = (sheet index q fs).toList) :
    positions p es = positions q fs ∧ List.Forall₂ (fun e f => e.2.Alike f.2) es fs := by
  induction es generalizing fs index p q with
  | nil =>
    cases fs with
    | nil => exact ⟨rfl, .nil⟩
    | cons f fs => exact absurd h.symm (sheet_cons_ne index q f)
  | cons e es ih =>
    cases fs with
    | nil => exact absurd h (sheet_cons_ne index p e)
    | cons f fs =>
      obtain ⟨bs, e⟩ := e
      obtain ⟨bs', f⟩ := f
      obtain ⟨he, hes⟩ := List.forall_mem_cons.1 hes
      obtain ⟨hf, hfs⟩ := List.forall_mem_cons.1 hfs
      rw [sheet_cons, sheet_cons] at h
      have hposition := List.append_cancel_left h
      obtain ⟨rfl, hentry⟩ := legible_nat p q _ _ (breaks_cons rfl _) (breaks_cons rfl _) hposition
      obtain ⟨halike, hrest⟩ := Entry.text_inj he hf (List.cons.inj hentry).2
      obtain ⟨hpositions, hothers⟩ := ih hes hfs hrest
      exact ⟨congrArg (p :: ·) hpositions, .cons halike hothers⟩

/-! ### Dumps -/

/-- An entry is read from the front of a byte string in one way. -/
theorem Entry.readFrom_unique {bs bs' rest rest' : Bytes} {e e' : Entry} (hkind : e.isMessage = e'.isMessage)
    (he : e.ReadFrom limits bs) (he' : e'.ReadFrom limits bs') (h : bs ++ rest = bs' ++ rest') :
    e = e' ∧ rest = rest' := by
  cases e with
  | record r =>
    cases e' with
    | record r' =>
      have hread := readRecord_eq_ok.2 ⟨bs, (rfl : bs ++ rest = _), he⟩
      rw [readRecord_eq_ok.2 ⟨bs', h, he'⟩] at hread
      cases hread
      exact ⟨rfl, rfl⟩
    | message m' => cases hkind
  | message m =>
    cases e' with
    | record r' => cases hkind
    | message m' =>
      have hread := readMessage_eq_ok.2 ⟨bs, (rfl : bs ++ rest = _), he⟩
      rw [readMessage_eq_ok.2 ⟨bs', h, he'⟩] at hread
      cases hread
      exact ⟨rfl, rfl⟩

theorem Tiles.unique : ∀ {es fs : List (Bytes × Entry)} {range : Bytes}, Tiles limits message range es →
    Tiles limits message range fs → es = fs
  | [], fs, _, hes, hfs => (Tiles.eq_nil (hes.covers ▸ hfs)).symm
  | (bs, e) :: es, [], _, hes, hfs => Tiles.eq_nil (hfs.covers ▸ hes)
  | (bs, e) :: es, (bs', f) :: fs, range, hes, hfs => by
    obtain ⟨rest, rfl, hkind, hread, hothers⟩ := hes.of_cons
    obtain ⟨rest', heq, hkind', hread', hothers'⟩ := hfs.of_cons
    obtain ⟨rfl, rfl⟩ := Entry.readFrom_unique (hkind.trans hkind'.symm) hread hread' heq
    cases List.append_cancel_right heq
    rw [hothers.unique hothers']

/-- The entries in a range: it is cut into them, and into no others. -/
def Holds (limits : Limits) (message : Bool) (range : Bytes) (es : List (Bytes × Entry)) : Prop :=
  ∀ fs, Tiles limits message range fs ↔ fs = es

/-- The bytes that a dump is made of. -/
def rangeOf (contents : Bytes) (offset : Nat) (length : Option Nat) : Bytes :=
  (contents.drop offset).take (length.getD (contents.length - offset))

section

variable {options : FetchOptions} {contents : Bytes} {offset : Nat} {length : Option Nat} {pool : Pool} {text : String}

theorem length_rangeOf (hinside : offset + length.getD (contents.length - offset) ≤ contents.length) :
    (rangeOf contents offset length).length = length.getD (contents.length - offset) := by
  rw [rangeOf, List.length_take, List.length_drop]
  omega

/-- A dump of a range inside of its file prints the sheet of the entries in the range. -/
theorem tiles_of_dump (hpool : pool.Sound) (hlength : contents.length ≤ 1 <<< 63)
    (hinside : offset + length.getD (contents.length - offset) ≤ contents.length)
    (h : answer (dump options offset length message (some contents) pool) = .ok text) :
    ∃ es, Tiles options.limits message (rangeOf contents offset length) es ∧ text = sheet 0 offset es := by
  rcases answer_dump options rfl hpool hlength hinside with ⟨e, herror, -⟩ | hsame
  · cases herror.symm.trans h
  · have hshows := shows_listing options.limits message offset (length_rangeOf hinside)
    obtain ⟨es, htiles, -, htext⟩ := (hshows.ok_iff text).1 (hsame.symm.trans h)
    exact ⟨es, htiles, htext⟩

/-- A whole file that entries tile is dumped, if no span of theirs and no number is too long. -/
theorem dump_of_tiles (hpool : pool.Sound) (hlong : options.limits.maxString ≤ Transport.sure)
    (hlength : contents.length ≤ 1 <<< 63) (h : Tiles options.limits message contents es)
    (hcount : es.length ≤ maxCount) :
    answer (dump options 0 none message (some contents) pool) = .ok (sheet 0 0 es) := by
  have hinside : 0 + (none : Option Nat).getD (contents.length - 0) ≤ contents.length := by simp
  have hwhole : rangeOf contents 0 none = contents := by simp [rangeOf]
  have hshows := shows_listing options.limits message 0 (length_rangeOf hinside)
  refine (dump_eq_listing hlong rfl hpool hlength hinside).trans ((hshows.ok_iff _).2 ⟨es, ?_, hcount, rfl⟩)
  rwa [hwhole]

theorem holds_of_tiles (h : Tiles limits message range es) : Holds limits message range es :=
  fun _ => ⟨fun hfs => hfs.unique h, fun hfs => hfs ▸ h⟩

/-- What a dump prints is the sheet of the entries in its range. -/
theorem holds_of_dump (hpool : pool.Sound) (hlength : contents.length ≤ 1 <<< 63)
    (h : answer (dump options offset length message (some contents) pool) = .ok text) :
    ∃ es, Holds options.limits message (rangeOf contents offset length) es ∧ text = sheet 0 offset es := by
  by_cases hout : contents.length < min (offset + length.getD (contents.length - offset)) FileSource.maxOffset
  · rw [answer_eq_error.2 ⟨pool, dump_outside options rfl hout pool⟩] at h
    cases h
  · have hmax : FileSource.maxOffset = 18446744073709551615 := rfl
    obtain ⟨es, htiles, htext⟩ := tiles_of_dump hpool hlength (by omega) h
    exact ⟨es, holds_of_tiles htiles, htext⟩

end

/-- **Tame names can not forge a dump**: a header takes one line and one more for each line break in its name, and of
two dumps that print the same for ranges that begin at the same offset, either one shows a name that holds the end of
a header, or the ranges hold as many entries, at the same positions, with the same headers, and with records that are
equal up to doubles printed the same.  A file can be positioned at `1 <<< 63` offsets, so no file is longer. -/
theorem dump_unforged {options₁ options₂ : FetchOptions} {contents₁ contents₂ : Bytes} {length₁ length₂ : Option Nat}
    {pool₁ pool₂ : Pool} {offset : Nat} {text : String} (hpool₁ : pool₁.Sound) (hpool₂ : pool₂.Sound)
    (hlength₁ : contents₁.length ≤ 1 <<< 63) (hlength₂ : contents₂.length ≤ 1 <<< 63)
    (h₁ : answer (dump options₁ offset length₁ message (some contents₁) pool₁) = .ok text)
    (h₂ : answer (dump options₂ offset length₂ message (some contents₂) pool₂) = .ok text) :
    (∀ h : MessageHeader, h.render.toList.count '\n' = h.name.toList.count '\n') ∧
    ∃ es₁ es₂, Holds options₁.limits message (rangeOf contents₁ offset length₁) es₁ ∧
      Holds options₂.limits message (rangeOf contents₂ offset length₂) es₂ ∧
      ((∀ e ∈ es₁ ++ es₂, e.2.Tame) →
        positions offset es₁ = positions offset es₂ ∧ List.Forall₂ (fun e f => e.2.Alike f.2) es₁ es₂) := by
  obtain ⟨es₁, hholds₁, htext₁⟩ := holds_of_dump hpool₁ hlength₁ h₁
  obtain ⟨es₂, hholds₂, htext₂⟩ := holds_of_dump hpool₂ hlength₂ h₂
  refine ⟨MessageHeader.count_render, es₁, es₂, hholds₁, hholds₂, fun htame => ?_⟩
  rw [List.forall_mem_append] at htame
  exact sheet_inj htame.1 htame.2 (congrArg String.toList (htext₁.symm.trans htext₂))

/-- The same message with its empty list in both forms that a list has. -/
theorem dump_unforged_emptyList :
    let short : Bytes := [130, 33, 1, 1, 97, 25, 5, 0]
    let long : Bytes := [130, 33, 1, 1, 97, 25, 245, 0, 0]
    let e : Entry := .message (⟨"a", 1, 1⟩, [(1, .list .i32 [])])
    let shown : Except Failure String :=
      .ok "record 0 @ 0\nmessage a (kind=1, seq_id=1)\nstruct \x7b\n  1: list<i32> []\n\x7d\n"
    let pool := Pool.new .standard
    pool.Sound ∧ answer (dump {} 0 none true (some short) pool) = shown ∧
      answer (dump {} 0 none true (some long) pool) = shown ∧
      positions 0 [(short, e)] = positions 0 [(long, e)] ∧ e.Alike e := by
  intro short long e shown pool
  have hpool : pool.Sound := Pool.sound_new .standard
  have htext : sheet 0 0 [(short, e)] =
      "record 0 @ 0\nmessage a (kind=1, seq_id=1)\nstruct \x7b\n  1: list<i32> []\n\x7d\n" := by decide
  have htext' : sheet 0 0 [(long, e)] =
      "record 0 @ 0\nmessage a (kind=1, seq_id=1)\nstruct \x7b\n  1: list<i32> []\n\x7d\n" := by decide
  have htiles : Tiles {} true short [(short, e)] := ⟨rfl, List.forall_mem_singleton.2 ⟨rfl, by cbv⟩⟩
  have htiles' : Tiles {} true long [(long, e)] := ⟨rfl, List.forall_mem_singleton.2 ⟨rfl, by cbv⟩⟩
  have hshown : answer (dump {} 0 none true (some short) pool) = shown :=
    (dump_of_tiles hpool (by decide) (by decide) htiles (by decide)).trans (congrArg Except.ok htext)
  have hshown' : answer (dump {} 0 none true (some long) pool) = shown :=
    (dump_of_tiles hpool (by decide) (by decide) htiles' (by decide)).trans (congrArg Except.ok htext')
  obtain ⟨-, es₁, es₂, h₁, h₂, hsame⟩ := dump_unforged hpool hpool (by decide) (by decide) hshown hshown'
  cases (h₁ _).1 htiles
  cases (h₂ _).1 htiles'
  have htame : e.Tame := MessageHeader.tame_of_notMem (by decide)
  obtain ⟨hpositions, halike⟩ := hsame (List.forall_mem_cons.2 ⟨htame, List.forall_mem_singleton.2 htame⟩)
  cases halike with
  | cons halike _ => exact ⟨hpool, hshown, hshown', hpositions, halike⟩

/-- A message with a name that goes on like a dump is dumped like two, and a line break in a name breaks the line of the
header. -/
theorem dump_forged :
    let one : Message := (⟨"a (kind=1, seq_id=1)\nstruct \x7b\x7d\nrecord 1 @ 6\nmessage b", 1, 1⟩, [])
    let first : Bytes := [130, 33, 1, 1, 97, 0]
    let second : Bytes := [130, 33, 1, 1, 98, 0]
    let two : List (Bytes × Entry) := [(first, .message (⟨"a", 1, 1⟩, [])), (second, .message (⟨"b", 1, 1⟩, []))]
    let shown : Except Failure String := .ok ("record 0 @ 0\nmessage a (kind=1, seq_id=1)\nstruct \x7b\x7d\n" ++
      "record 1 @ 6\nmessage b (kind=1, seq_id=1)\nstruct \x7b\x7d\n")
    let pool := Pool.new .standard
    answer (dump {} 0 none true (some one.bytes) pool) = shown ∧
      answer (dump {} 0 none true (some (first ++ second)) pool) = shown ∧
      Holds {} true one.bytes [(one.bytes, .message one)] ∧ Holds {} true (first ++ second) two ∧
      MessageHeader.render ⟨"a\nb", 1, 7⟩ = "message a\nb (kind=1, seq_id=7)" := by
  intro one first second two shown pool
  have hpool : pool.Sound := Pool.sound_new .standard
  have hone : Tiles {} true one.bytes [(one.bytes, .message one)] :=
    ⟨List.append_nil _, List.forall_mem_singleton.2 ⟨rfl, by cbv⟩⟩
  have htwo : Tiles {} true (first ++ second) two :=
    ⟨rfl, List.forall_mem_cons.2 ⟨⟨rfl, by cbv⟩, List.forall_mem_singleton.2 ⟨rfl, by cbv⟩⟩⟩
  have hsheet : sheet 0 0 [(one.bytes, .message one)] =
      "record 0 @ 0\nmessage a (kind=1, seq_id=1)\nstruct \x7b\x7d\n" ++
        "record 1 @ 6\nmessage b (kind=1, seq_id=1)\nstruct \x7b\x7d\n" := by decide
  have hsheet' : sheet 0 0 two = "record 0 @ 0\nmessage a (kind=1, seq_id=1)\nstruct \x7b\x7d\n" ++
        "record 1 @ 6\nmessage b (kind=1, seq_id=1)\nstruct \x7b\x7d\n" := by decide
  have hlength : one.bytes.length = 58 := by cbv
  refine ⟨?_, ?_, holds_of_tiles hone, holds_of_tiles htwo, by decide⟩
  · exact (dump_of_tiles hpool (by decide) (by omega) hone (by decide)).trans (congrArg Except.ok hsheet)
  · exact (dump_of_tiles hpool (by decide) (by decide) htwo (by decide)).trans (congrArg Except.ok hsheet')

end Inspect

end CompactWire

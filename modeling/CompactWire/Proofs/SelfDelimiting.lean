import Mathlib
import CompactWire.Proofs.AgreementValues
import CompactWire.Proofs.Unlimited

/-!
# CompactWire.Proofs.SelfDelimiting — a record tells where it ends

A byte string that decodes to a record ends where the record does.  Cut short it runs out of input, and nothing else
goes wrong before; continued it reads as before and leaves what was added (`Record.Delimits`).  So no such byte string
is a proper prefix of another, and a row of them can be taken apart in one way only (`self_delimiting`).

The runs on a byte string and on a cut one go side by side: `Bytes.cut` links the two inputs, and the shorter side may
give up where it ends.
-/

namespace CompactWire

open Outcome

/-- A byte string that goes on with `x`, and the same without `x`, which may give up at its end. -/
def Bytes.cut (x : Bytes) : Link Bytes Bytes where
  states n i j := n = j.length ∧ i = j ++ x
  failed _ _ _ := True
  givesUp e := e = .endOfInput
  limits := Eq
  remaining := by
    rintro n i j ⟨rfl, rfl⟩
    exact ⟨(List.length_append ▸ Nat.le_add_right _ _ : j.length ≤ (j ++ x).length), Nat.le_refl _⟩
  failed_of_ne := fun _ _ => trivial
  readByte n := by
    rintro i j ⟨rfl, rfl⟩
    cases j with
    | nil => exact .gaveUp rfl
    | cons b j => exact .ok ⟨rfl, j.length, Nat.le_refl _, rfl, rfl⟩
  readSpan length := by
    rintro - ⟨rfl, rfl⟩
    rename_i j
    show BothEnd _ _ _ (Bytes.readSpan length (j ++ x)) (Bytes.readSpan length j)
    unfold Bytes.readSpan
    by_cases hshort : j.length < length
    · rw [if_pos hshort]
      exact .gaveUp rfl
    · have hlong : ¬(j ++ x).length < length := by
        rw [List.length_append]
        omega
      have htake : (j ++ x).take length = j.take length := List.take_append_of_le_length (Nat.not_lt.1 hshort)
      have hdrop : (j ++ x).drop length = j.drop length ++ x := List.drop_append_of_le_length (Nat.not_lt.1 hshort)
      rw [if_neg hshort, if_neg hlong]
      refine .ok ⟨htake, (j.drop length).length, ?_, rfl, hdrop⟩
      rw [List.length_drop]
      exact Nat.sub_le _ _
  tightens := fun hl => hl ▸ ⟨Or.inl rfl, Or.inl rfl, Or.inl rfl⟩

namespace Record

variable {limits : Limits} {b p x : Bytes} {s : Record}

/-! ### Longer and shorter -/

/-- A byte string that decodes is read from the front of any that begins with it. -/
theorem read_append (h : decode limits b = .ok s) (x : Bytes) :
    Reader.record { input := b ++ x, limits } = .ok s { input := x, limits } := by
  obtain ⟨hw, hheight, hstructs⟩ := decode_eq_ok.1 h
  exact (Reader.record_eq_ok (r := { input := b ++ x, limits }) rfl s _).2
    ⟨b, x, rfl, ⟨hheight, hstructs, hw⟩, rfl⟩

theorem decode_append (h : decode limits b = .ok s) (hx : x ≠ []) :
    decode limits (b ++ x) = .error (.invalidData (.trailingBytes x.length)) := by
  unfold decode
  rw [read_append h x]
  exact if_neg (by simpa using hx)

/-- Cut short it reads up to its end, whatever it is cut in. -/
theorem decode_of_append (h : decode limits (p ++ x) = .ok s) (hx : x ≠ []) : decode limits p = .error .endOfInput := by
  have hwhole := read_append h []
  rw [List.append_nil] at hwhole
  have hagrees := (Bytes.cut x).agrees_record (n := p.length) { input := p ++ x, limits } { input := p, limits }
    ⟨⟨rfl, rfl⟩, rfl, rfl, rfl, rfl⟩
  rw [hwhole] at hagrees
  unfold decode
  generalize Reader.record { input := p, limits } = o at hagrees ⊢
  cases hagrees with
  | ok hgood =>
    -- both sides read the record, so `x` would have to be left on the longer one
    obtain ⟨-, m, -, hstates⟩ := hgood
    have hleft : [] = _ ++ x := hstates.input.2
    exact absurd (List.append_eq_nil_iff.1 hleft.symm).2 hx
  | gaveUp hend =>
    cases hend
    rfl

/-- The byte string `b` is a record `s` and ends with it. -/
structure Delimits (limits : Limits) (b : Bytes) (s : Record) : Prop where
  /-- A shorter byte string runs out of input. -/
  shorter (p : Bytes) : p <+: b → p ≠ b → decode limits p = .error .endOfInput
  /-- In a longer one the record takes just these bytes. -/
  longer (x : Bytes) : Reader.record { input := b ++ x, limits } = .ok s { input := x, limits }
  /-- A longer one is not a record, and the error tells how much longer it is. -/
  trailing (x : Bytes) : x ≠ [] → decode limits (b ++ x) = .error (.invalidData (.trailingBytes x.length))

theorem delimits (h : decode limits b = .ok s) : Delimits limits b s where
  shorter := by
    rintro p ⟨x, rfl⟩ hne
    have hx : x ≠ [] := by
      rintro rfl
      exact hne (List.append_nil p).symm
    exact decode_of_append h hx
  longer := read_append h
  trailing _ hx := decode_append h hx

/-! ### Rows of records -/

/-- Of two byte strings that decode neither goes on with the other. -/
theorem eq_of_isPrefix {c : Bytes} {t : Record} (hb : decode limits b = .ok s) (hc : decode limits c = .ok t)
    (h : b <+: c) : b = c := by
  by_contra hne
  have hend := (delimits hc).shorter b h hne
  rw [hb] at hend
  cases hend

/-- A record takes a byte at least, the end of its fields. -/
theorem ne_nil_of_decode (h : decode limits b = .ok s) : b ≠ [] := by
  have hw : Phrase.Written (some limits) (.fields 0 s) b := (decode_eq_ok.1 h).1
  have hcount : s.length + 1 ≤ b.length := hw.count_le
  exact List.ne_nil_of_length_pos (by omega)

/-- A row of byte strings that decode can be cut in one way. -/
theorem eq_of_flatten_eq : ∀ {bs cs : List Bytes}, (∀ b ∈ bs, ∃ s, decode limits b = .ok s) →
    (∀ c ∈ cs, ∃ t, decode limits c = .ok t) → bs.flatten = cs.flatten → bs = cs
  | [], [], _, _, _ => rfl
  | [], c :: cs, _, hcs, h => by
    obtain ⟨t, hc⟩ := hcs c List.mem_cons_self
    exact absurd (List.append_eq_nil_iff.1 h.symm).1 (ne_nil_of_decode hc)
  | b :: bs, [], hbs, _, h => by
    obtain ⟨s, hb⟩ := hbs b List.mem_cons_self
    exact absurd (List.append_eq_nil_iff.1 h).1 (ne_nil_of_decode hb)
  | b :: bs, c :: cs, hbs, hcs, h => by
    rw [List.forall_mem_cons] at hbs hcs
    obtain ⟨s, hb⟩ := hbs.1
    obtain ⟨t, hc⟩ := hcs.1
    rw [List.flatten_cons, List.flatten_cons] at h
    -- both first ones stand in front of the same bytes, so one of them is a prefix of the other
    have hfirst : b = c := by
      rcases List.prefix_or_prefix_of_prefix (List.prefix_append b bs.flatten)
        (h ▸ List.prefix_append c cs.flatten) with hbc | hcb
      · exact eq_of_isPrefix hb hc hbc
      · exact (eq_of_isPrefix hc hb hcb).symm
    subst hfirst
    rw [eq_of_flatten_eq hbs.2 hcs.2 (List.append_cancel_left h)]

/-- Records are read one after the other, each in the bytes that are its own. -/
theorem read_row {parts : List (Bytes × Record)} (h : ∀ q ∈ parts, decode limits q.1 = .ok q.2) (x : Bytes) :
    (parts.mapM fun _ => Reader.record) { input := parts.flatMap Prod.fst ++ x, limits } =
      .ok (parts.map Prod.snd) ({ input := x, limits } : Reader Bytes) := by
  have hsteps : ∀ q ∈ parts, ∀ (r : Reader Bytes) (rest : Bytes), r = { input := q.1 ++ rest, limits } →
      ∃ r', Reader.record r = .ok q.2 r' ∧ r' = { input := rest, limits } := by
    rintro q hq _ rest rfl
    exact ⟨_, read_append (h q hq) rest, rfl⟩
  obtain ⟨_, hread, rfl⟩ := mapM_of_steps (P := fun (r : Reader Bytes) d => r = { input := d, limits }) hsteps rfl
  exact hread

/-- **Records delimit themselves**: any byte string that decodes ends where its record does, and any row of such byte
strings is read back record by record, up to what follows it, and is no row of others. -/
theorem self_delimiting (limits : Limits) : (∀ b s, decode limits b = .ok s → Delimits limits b s) ∧
    ∀ parts : List (Bytes × Record), (∀ q ∈ parts, decode limits q.1 = .ok q.2) →
      (∀ x, (parts.mapM fun _ => Reader.record) { input := parts.flatMap Prod.fst ++ x, limits } =
        .ok (parts.map Prod.snd) ({ input := x, limits } : Reader Bytes)) ∧
      ∀ bs : List Bytes, (∀ b ∈ bs, ∃ s, decode limits b = .ok s) → bs.flatten = parts.flatMap Prod.fst →
        bs = parts.map Prod.fst := by
  refine ⟨fun b s h => delimits h, fun parts hparts => ⟨read_row hparts, fun bs hbs hflat => ?_⟩⟩
  have hfirsts : ∀ c ∈ parts.map Prod.fst, ∃ t, decode limits c = .ok t := by
    rw [List.forall_mem_map]
    exact fun q hq => ⟨q.2, hparts q hq⟩
  exact eq_of_flatten_eq hbs hfirsts (hflat.trans (List.flatMap_def ..))

/-- A list in a struct, cut within the list, continued, and followed by a record without fields. -/
theorem self_delimiting_nested :
    let nested : Record := [(1, .struct [(2, .list .i16 [.i16 1, .i16 (-1)])])]
    let bytes : Bytes := [28, 41, 36, 2, 1, 0, 0]
    (decode {} bytes = .ok nested ∧ decode {} [0] = .ok []) ∧ decode {} [28, 41, 36, 2] = .error .endOfInput ∧
      decode {} (bytes ++ [7, 7]) = .error (.invalidData (.trailingBytes 2)) ∧
      ([(bytes, nested), ([0], [])].mapM fun _ => Reader.record) { input := bytes ++ [0, 7], limits := {} } =
        .ok [nested, []] ({ input := [7], limits := {} } : Reader Bytes) ∧
      ∀ bs : List Bytes, (∀ b ∈ bs, ∃ s, decode {} b = .ok s) → bs.flatten = bytes ++ [0] → bs = [bytes, [0]] := by
  intro nested bytes
  have hnested : decode {} bytes = .ok nested := by cbv
  have hempty : decode {} [0] = .ok [] := by cbv
  have hdelimits := (self_delimiting {}).1 bytes nested hnested
  have hrow := (self_delimiting {}).2 [(bytes, nested), ([0], [])]
    (List.forall_mem_cons.2 ⟨hnested, List.forall_mem_singleton.2 hempty⟩)
  exact ⟨⟨hnested, hempty⟩, hdelimits.shorter _ ⟨[1, 0, 0], rfl⟩ (by decide), hdelimits.trailing [7, 7] (by decide),
    hrow.1 [7], hrow.2⟩

end Record

end CompactWire

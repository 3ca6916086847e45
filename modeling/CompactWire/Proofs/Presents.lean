import CompactWire.Input.Recorded
import CompactWire.Proofs.AgreementValues

/-!
# CompactWire.Proofs.Presents — inputs that present a byte string

`Input.Presents sure P` says that an input `k` with `P k d` has just the bytes `d` to come: bytes and spans are taken
from their front, and what goes past their end fails as it does on a byte string.  Only a span of more than `sure` bytes,
with more than `sure` to come, may be broken off (`Input.BreaksOff`).  On such an input all reading is as on the byte
string itself, unless it is broken off (`Presents.link`), and it stays so if what is delivered is recorded
(`Presents.recorded`).  A byte string presents itself, and breaks off nothing.
-/

namespace CompactWire

variable {κ span : Type} [Input κ span]

/-- A span is broken off, which is longer than `sure`, as is what is to come. -/
structure Input.BreaksOff (sure length : Nat) (d : Bytes) (k : κ) : Prop where
  length_gt : sure < length
  ahead_gt : sure < d.length
  aborted : ∃ k', Input.readSpan length k = .error (.aborted .overflow) k'

theorem Input.BreaksOff.recorded {sure length : Nat} {d : Bytes} {k : Recorded κ}
    (h : BreaksOff sure length d k.input) : BreaksOff sure length d k where
  length_gt := h.length_gt
  ahead_gt := h.ahead_gt
  aborted := by
    obtain ⟨k', hread⟩ := h.aborted
    refine ⟨{ k with input := k' }, ?_⟩
    show Recorded.deliver _ _ k = _
    rw [Recorded.deliver, hread]

/-- Inputs `k` with `P k d` have the bytes `d` to come. -/
structure Input.Presents (sure : Nat) (P : κ → Bytes → Prop) : Prop where
  readByte_cons {k : κ} {b : UInt8} {d : Bytes} : P k (b :: d) → ∃ k', Input.readByte k = .ok b k' ∧ P k' d
  readByte_nil {k : κ} : P k [] → ∃ k', Input.readByte k = .error .endOfInput k'
  readSpan {k : κ} {d : Bytes} {length : Nat} : P k d → length ≤ d.length → BreaksOff sure length d k ∨
    ∃ a k', Input.readSpan length k = .ok a k' ∧ Input.bytes κ a = d.take length ∧
      P (Input.release a k') (d.drop length)
  readSpan_short {k : κ} {d : Bytes} {length : Nat} : P k d → d.length < length → BreaksOff sure length d k ∨
    ∃ k', Input.readSpan length k = .error .endOfInput k'
  remaining {k : κ} {d : Bytes} : P k d → d.length ≤ Input.remaining k

namespace Input.Presents

variable {sure : Nat} {P : κ → Bytes → Prop}

/-- The link of a byte string of `total` bytes at most and an input that presents it, for spans of `longest` bytes at
most.  The input may be broken off if both are long enough. -/
def link (h : Presents sure P) (longest total : Nat) : Link Bytes κ where
  states n i k := n = i.length ∧ i.length ≤ total ∧ P k i
  failed e i k := e ≠ .endOfInput → i.length ≤ total ∧ P k i
  givesUp e := e = .aborted .overflow ∧ sure < max 8 longest ∧ sure < total
  limits l l' := l = l' ∧ l.longest ≤ longest
  covers length := length ≤ max 8 longest
  remaining := fun ⟨hn, _, hk⟩ => ⟨Nat.le_of_eq hn, hn ▸ h.remaining hk⟩
  failed_of_ne := fun _ hs _ => hs.2
  readByte n := by
    rintro i k ⟨rfl, htotal, hk⟩
    cases i with
    | nil =>
      obtain ⟨k', hread⟩ := h.readByte_nil hk
      rw [hread]
      exact .error fun hne => absurd rfl hne
    | cons b d =>
      obtain ⟨k', hread, hk'⟩ := h.readByte_cons hk
      rw [hread]
      exact .ok ⟨rfl, d.length, Nat.le_refl _, rfl, Nat.le_of_succ_le htotal, hk'⟩
  readSpan length := by
    rintro hcovered ⟨rfl, htotal, hk⟩
    rename_i i k
    show BothEnd _ _ _ (Bytes.readSpan length i) _
    by_cases hbroken : BreaksOff sure length i k
    · obtain ⟨k', hread⟩ := hbroken.aborted
      rw [hread]
      exact .gaveUp ⟨rfl, Nat.lt_of_lt_of_le hbroken.length_gt hcovered, Nat.lt_of_lt_of_le hbroken.ahead_gt htotal⟩
    unfold Bytes.readSpan
    by_cases hlen : i.length < length
    · obtain ⟨k', hread⟩ := (h.readSpan_short hk hlen).resolve_left hbroken
      rw [if_pos hlen, hread]
      exact .error fun hne => absurd rfl hne
    · obtain ⟨a, k', hread, hbytes, hk'⟩ := (h.readSpan hk (Nat.not_lt.1 hlen)).resolve_left hbroken
      have hshorter : (i.drop length).length ≤ i.length := by
        rw [List.length_drop]
        exact Nat.sub_le _ _
      rw [if_neg hlen, hread]
      exact .ok ⟨hbytes.symm, _, hshorter, rfl, Nat.le_trans hshorter htotal, hk'⟩
  tightens := fun hl => hl.1 ▸ ⟨Or.inl rfl, Or.inl rfl, Or.inl rfl⟩
  covers_eight := Nat.le_max_left 8 longest
  covers_length := fun {l l'} hl length hlength => by
    obtain ⟨rfl, hlongest⟩ := hl
    exact Nat.le_trans hlength (Nat.le_trans hlongest (Nat.le_max_right 8 longest))

/-- A new reader of a byte string and one of an input that presents it. -/
theorem linked_new (h : Presents sure P) {limits : Limits} {d : Bytes} {k : κ} {total : Nat} (htotal : d.length ≤ total)
    (hk : P k d) : (h.link limits.longest total).readers.states d.length { input := d, limits } { input := k, limits } :=
  ⟨⟨rfl, htotal, hk⟩, ⟨rfl, Nat.le_refl _⟩, rfl, rfl, rfl⟩

/-- What a new reader reads in front of a byte string, it reads on an input that presents it, unless it is broken off. -/
theorem ok_of_bytes {α : Type} (h : Presents sure P) {x : Reading Bytes α} {y : Reading κ α} {a : α} {d rest : Bytes}
    {k : κ} {limits : Limits} {total : Nat} (hxy : ∀ n, (h.link limits.longest total).SameReading n 0 x y)
    (hx : x { input := d, limits } = .ok a { input := rest, limits }) (htotal : d.length ≤ total) (hk : P k d) :
    ((sure < max 8 limits.longest ∧ sure < total) ∧
      ∃ r', y { input := k, limits } = .error (.aborted .overflow) r') ∨
    ∃ k', y { input := k, limits } = .ok a { input := k', limits } ∧ P k' rest := by
  have hagrees := hxy d.length { input := d, limits } { input := k, limits } (h.linked_new htotal hk)
  rw [hx] at hagrees
  generalize y { input := k, limits } = o at hagrees ⊢
  cases hagrees with
  | gaveUp hgave =>
    obtain ⟨rfl, hlong⟩ := hgave
    exact Or.inl ⟨hlong, _, rfl⟩
  | @ok _ _ _ r' hgood =>
    obtain ⟨rfl, m, -, hlinked⟩ := hgood
    obtain ⟨hinput, hlimits, hparents, hlastId, hpending⟩ := hlinked
    obtain ⟨k', limits', parents, lastId, pendingBool⟩ := r'
    obtain ⟨hlimits, -⟩ := hlimits
    dsimp only at hinput hlimits hparents hlastId hpending
    subst hlimits hparents hlastId hpending
    exact Or.inr ⟨k', rfl, hinput.2.2⟩

/-- What is delivered and what is to come is the whole. -/
theorem recorded (h : Presents sure P) (whole : Bytes) :
    Presents sure (fun (k : Recorded κ) d => P k.input d ∧ k.delivered ++ d = whole) where
  readByte_cons := by
    rintro k b d ⟨hk, hwhole⟩
    obtain ⟨k', hread, hk'⟩ := h.readByte_cons hk
    refine ⟨⟨k', k.delivered ++ [b]⟩, ?_, hk', ?_⟩
    · show Recorded.deliver _ _ k = _
      rw [Recorded.deliver, hread]
    · rw [List.append_assoc]
      exact hwhole
  readByte_nil := by
    rintro k ⟨hk, -⟩
    obtain ⟨k', hread⟩ := h.readByte_nil hk
    refine ⟨{ k with input := k' }, ?_⟩
    show Recorded.deliver _ _ k = _
    rw [Recorded.deliver, hread]
  readSpan := by
    rintro k d length ⟨hk, hwhole⟩ hlen
    refine (h.readSpan hk hlen).imp (·.recorded) ?_
    rintro ⟨a, k', hread, hbytes, hk'⟩
    refine ⟨a, ⟨k', k.delivered ++ Input.bytes κ a⟩, ?_, hbytes, hk', ?_⟩
    · show Recorded.deliver _ _ k = _
      rw [Recorded.deliver, hread]
    · show (k.delivered ++ Input.bytes κ a) ++ d.drop length = whole
      rw [hbytes, List.append_assoc, List.take_append_drop]
      exact hwhole
  readSpan_short := by
    rintro k d length ⟨hk, -⟩ hlen
    refine (h.readSpan_short hk hlen).imp (·.recorded) ?_
    rintro ⟨k', hread⟩
    refine ⟨{ k with input := k' }, ?_⟩
    show Recorded.deliver _ _ k = _
    rw [Recorded.deliver, hread]
  remaining := fun hk => h.remaining hk.1

end Input.Presents

/-- A byte string presents itself. -/
theorem Bytes.presents (sure : Nat) : Input.Presents sure fun (i : Bytes) d => i = d where
  readByte_cons := fun hi => hi ▸ ⟨_, rfl, rfl⟩
  readByte_nil := fun hi => hi ▸ ⟨_, rfl⟩
  readSpan := fun {i d length} hi hlength => by
    subst hi
    exact Or.inr ⟨_, _, if_neg (Nat.not_lt.2 hlength), rfl, rfl⟩
  readSpan_short := fun {i d length} hi hlength => by
    subst hi
    exact Or.inr ⟨_, if_pos hlength⟩
  remaining := fun hi => hi ▸ Nat.le_refl _

end CompactWire

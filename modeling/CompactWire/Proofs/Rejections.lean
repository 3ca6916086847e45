import CompactWire.Proofs.Refusals
import CompactWire.Writer.Call

/-!
# CompactWire.Proofs.Rejections — what a rejected call leaves behind

A single call of a writer is checked before it writes, with two exceptions: the size of a list or set of more than 14
elements is checked behind the byte that announces it, and the length of the name of a message behind the fields in
front of the name.  `Call.Rejected` lists every reason to reject a call, with the bytes that are out by then, and
`Call.run_eq_error_iff` says that these are all reasons and that nothing else of the writer has changed.  So a call is
`Atomic` unless its size or its name has more than 32 bits (`Call.atomic_iff`).
-/

namespace CompactWire.Writer

open Outcome

variable {w w' : Writer} {e : Error} {α : Type}

/-- Wherever the call fails it leaves the writer as it was. -/
def Atomic (x : Writing α) : Prop := ∀ w e w', x w = .error e w' → w' = w

namespace Call

/-- A call that writes a header, a mark or a value without elements. -/
def Single : Call → Prop
  | .value _ | .record _ => False
  | _ => True

/-- A call that has to wait for the boolean of a field. -/
def Waits : Call → Prop
  | .structEnd | .fieldBegin _ | .fieldStop | .mapBegin _ | .listBegin _ | .setBegin _ => True
  | _ => False

/-- The size of a list or set, or the length of the name of a message, has more than 32 bits. -/
def Oversized : Call → Prop
  | .listBegin header | .setBegin header => UInt32.size ≤ header.size
  | .messageBegin header => header.kind ≤ 3 ∧ UInt32.size ≤ (Utf8.encode header.name).length
  | _ => False

/-- `Rejected w call e left`: the writer `w` rejects the call with `e` when the bytes `left` are out. -/
inductive Rejected (w : Writer) : Call → Error → Bytes → Prop
  /-- The boolean of a field has to come first. -/
  | pending {call : Call} {id : Int16} (waits : call.Waits) (pending : w.pendingBool = some id) :
    Rejected w call (.pendingBool id) []
  | kind {header : MessageHeader} (wide : 3 < header.kind) :
    Rejected w (.messageBegin header) (.invalidData (.kindTooWide header.kind)) []
  /-- The fields in front of the name are out. -/
  | name {header : MessageHeader} (narrow : header.kind ≤ 3) (long : UInt32.size ≤ (Utf8.encode header.name).length) :
    Rejected w (.messageBegin header) (.lengthExceeded (Utf8.encode header.name).length (UInt32.size - 1))
      ([MessageHeader.protocolId, UInt8.ofNat (MessageHeader.version + 32 * header.kind)] ++
        Varint.encode header.seqId.toUInt32.toNat)
  | string {text : String} (long : UInt32.size ≤ (Utf8.encode text).length) :
    Rejected w (.string text) (.lengthExceeded (Utf8.encode text).length (UInt32.size - 1)) []
  | binary {bytes : Bytes} (long : UInt32.size ≤ bytes.length) :
    Rejected w (.binary bytes) (.lengthExceeded bytes.length (UInt32.size - 1)) []
  | underflow (idle : w.pendingBool = none) (closed : w.parents = []) : Rejected w .structEnd .structUnderflow []
  | stop {id : Int16} (idle : w.pendingBool = none) :
    Rejected w (.fieldBegin ⟨id, .stop⟩) (.invalidFieldType .stop) []
  | untyped {key val : Option WireType} {size : Nat} (idle : w.pendingBool = none) (entries : size ≠ 0)
      (untyped : key = none ∨ val = none) : Rejected w (.mapBegin ⟨key, val, size⟩) (.invalidData .untypedMap) []
  | map {key val : WireType} {size : Nat} (idle : w.pendingBool = none) (many : UInt32.size ≤ size) :
    Rejected w (.mapBegin ⟨some key, some val, size⟩) (.lengthExceeded size (UInt32.size - 1)) []
  /-- The byte that announces the size is out. -/
  | list {header : CollectionHeader} (idle : w.pendingBool = none) (many : UInt32.size ≤ header.size) :
    Rejected w (.listBegin header) (.lengthExceeded header.size (UInt32.size - 1)) [nibbles 15 header.element.code]
  | set {header : CollectionHeader} (idle : w.pendingBool = none) (many : UInt32.size ≤ header.size) :
    Rejected w (.setBegin header) (.lengthExceeded header.size (UInt32.size - 1)) [nibbles 15 header.element.code]

end Call

/-! ### The checks -/

theorem checkPending_of_some {id : Int16} (hp : w.pendingBool = some id) :
    checkPending w = .error (.pendingBool id) w := by
  unfold checkPending
  refine (bind_of_ok (x := get) (a := w) rfl).trans ?_
  rw [hp]
  rfl

theorem putSize_of_le {size : Nat} (h : UInt32.size ≤ size) :
    putSize size w = .error (.lengthExceeded size (UInt32.size - 1)) w := by
  unfold putSize
  rw [if_pos h]
  rfl

theorem binary_of_le {bytes : Bytes} (h : UInt32.size ≤ bytes.length) :
    binary bytes w = .error (.lengthExceeded bytes.length (UInt32.size - 1)) w :=
  bind_of_error (putSize_of_le h)

/-- Behind a check for a waiting boolean, either the check fails or what is checked. -/
theorem checked_eq_error {x : Writing α} (h : (checkPending >>= fun _ => x) w = .error e w') :
    (∃ id, w.pendingBool = some id ∧ e = .pendingBool id ∧ w' = w) ∨ w.pendingBool = none ∧ x w = .error e w' := by
  cases hp : w.pendingBool with
  | none =>
    rw [bind_of_ok (checkPending_eq hp)] at h
    exact Or.inr ⟨rfl, h⟩
  | some id =>
    cases (bind_of_error (checkPending_of_some hp)).symm.trans h
    exact Or.inl ⟨id, rfl, rfl, rfl⟩

theorem putSize_eq_error {size : Nat} (h : putSize size w = .error e w') :
    UInt32.size ≤ size ∧ e = .lengthExceeded size (UInt32.size - 1) ∧ w' = w := by
  obtain ⟨hsize, -⟩ := of_putSize_error h
  cases (putSize_of_le hsize).symm.trans h
  exact ⟨hsize, rfl, rfl⟩

theorem binary_eq_error {bytes : Bytes} (h : binary bytes w = .error e w') :
    UInt32.size ≤ bytes.length ∧ e = .lengthExceeded bytes.length (UInt32.size - 1) ∧ w' = w := by
  rcases bind_eq_error.1 h with hsize | ⟨_, _, _, hput⟩
  · exact putSize_eq_error hsize
  · cases hput

namespace Call

/-! ### Every reason -/

theorem Rejected.run_eq {call : Call} {left : Bytes} (h : call.Rejected w e left) :
    call.run w = .error e (w.add left) := by
  cases h with
  | pending waits pending =>
    rw [add_nil]
    cases call <;> first | exact waits.elim | exact bind_of_error (checkPending_of_some pending)
  | kind wide =>
    rw [add_nil, run, Writer.messageBegin, if_pos wide]
    rfl
  | name narrow long =>
    rw [run, Writer.messageBegin, if_neg (Nat.not_lt.2 narrow), ← add_add]
    exact (bind_of_ok (put_eq _ w)).trans ((bind_of_ok (put_eq _ _)).trans (binary_of_le long))
  | string long | binary long =>
    rw [add_nil]
    exact binary_of_le long
  | underflow idle closed =>
    refine (bind_of_ok (checkPending_eq idle)).trans ((bind_of_ok (x := get) (a := w) rfl).trans ?_)
    rw [closed, add_nil]
    rfl
  | stop idle =>
    rw [add_nil]
    exact bind_of_ok (checkPending_eq idle)
  | @untyped key val size idle entries untyped =>
    refine (bind_of_ok (checkPending_eq idle)).trans ?_
    rw [if_neg entries, add_nil]
    rcases untyped with rfl | rfl
    · rfl
    · cases key <;> rfl
  | map idle many =>
    refine (bind_of_ok (checkPending_eq idle)).trans ?_
    rw [if_neg (Nat.ne_of_gt (Nat.lt_of_lt_of_le zero_lt_size many)), add_nil]
    exact bind_of_error (putSize_of_le many)
  | list idle many | set idle many =>
    refine (bind_of_ok (checkPending_eq idle)).trans ?_
    rw [if_neg (fun hle => absurd (Nat.le_trans many hle) (by decide))]
    exact (bind_of_ok (put_eq _ w)).trans (putSize_of_le many)

theorem exists_rejected_messageBegin {header : MessageHeader} (h : Writer.messageBegin header w = .error e w') :
    ∃ left, Rejected w (.messageBegin header) e left ∧ w' = w.add left := by
  unfold Writer.messageBegin at h
  by_cases hkind : 3 < header.kind
  · rw [if_pos hkind] at h
    cases h
    exact ⟨[], .kind hkind, add_nil.symm⟩
  · rw [if_neg hkind] at h
    rcases bind_eq_error.1 h with hput | ⟨_, w₁, hput, h⟩
    · cases hput
    cases hput
    rcases bind_eq_error.1 h with hput | ⟨_, w₂, hput, h⟩
    · cases hput
    cases hput
    obtain ⟨hlong, rfl, rfl⟩ := binary_eq_error h
    exact ⟨_, .name (Nat.not_lt.1 hkind) hlong, add_add _ _⟩

theorem exists_rejected_structEnd (h : Writer.structEnd w = .error e w') :
    ∃ left, Rejected w .structEnd e left ∧ w' = w.add left := by
  obtain ⟨id, hp, rfl, rfl⟩ | ⟨idle, h⟩ := checked_eq_error h
  · exact ⟨[], .pending trivial hp, add_nil.symm⟩
  · rw [bind_of_ok (x := get) (a := w) rfl] at h
    cases hparents : w.parents with
    | nil =>
      rw [hparents] at h
      cases h
      exact ⟨[], .underflow idle hparents, add_nil.symm⟩
    | cons id parents =>
      rw [hparents] at h
      cases h

theorem exists_rejected_fieldBegin {header : FieldHeader} (h : Writer.fieldBegin header w = .error e w') :
    ∃ left, Rejected w (.fieldBegin header) e left ∧ w' = w.add left := by
  obtain ⟨id, type⟩ := header
  obtain ⟨_, hp, rfl, rfl⟩ | ⟨idle, -⟩ := checked_eq_error h
  · exact ⟨[], .pending trivial hp, add_nil.symm⟩
  · by_cases hstop : type = .stop
    · subst hstop
      have hrejected : Rejected w (.fieldBegin ⟨id, .stop⟩) (.invalidFieldType .stop) [] := .stop idle
      cases hrejected.run_eq.symm.trans h
      exact ⟨[], hrejected, rfl⟩
    · obtain ⟨_, hbegin, -⟩ := exists_fieldBegin id hstop idle
      cases hbegin.symm.trans h

theorem exists_rejected_mapBegin {header : MapHeader} (h : Writer.mapBegin header w = .error e w') :
    ∃ left, Rejected w (.mapBegin header) e left ∧ w' = w.add left := by
  obtain ⟨key, val, size⟩ := header
  obtain ⟨_, hp, rfl, rfl⟩ | ⟨idle, -⟩ := checked_eq_error h
  · exact ⟨[], .pending trivial hp, add_nil.symm⟩
  obtain ⟨hentries, hreason⟩ := of_mapBegin_error idle h
  have hrejected : ∃ e, Rejected w (.mapBegin ⟨key, val, size⟩) e [] := by
    rcases hreason with ⟨huntyped, -⟩ | ⟨hmany, -⟩
    · exact ⟨_, .untyped idle hentries huntyped⟩
    -- the types are looked at before the size
    · cases key with
      | none => exact ⟨_, .untyped idle hentries (Or.inl rfl)⟩
      | some key => cases val with
        | none => exact ⟨_, .untyped idle hentries (Or.inr rfl)⟩
        | some val => exact ⟨_, .map idle hmany⟩
  obtain ⟨e', hrejected⟩ := hrejected
  cases hrejected.run_eq.symm.trans h
  exact ⟨[], hrejected, rfl⟩

theorem exists_rejected_collectionBegin {header : CollectionHeader} (h : collectionBegin header w = .error e w') :
    ∃ left, (Rejected w (.listBegin header) e left ∧ Rejected w (.setBegin header) e left) ∧ w' = w.add left := by
  obtain ⟨_, hp, rfl, rfl⟩ | ⟨idle, -⟩ := checked_eq_error h
  · exact ⟨[], ⟨.pending trivial hp, .pending trivial hp⟩, add_nil.symm⟩
  · obtain ⟨hmany, -⟩ := of_collectionBegin_error idle h
    cases (Rejected.list idle hmany).run_eq.symm.trans h
    exact ⟨_, ⟨.list idle hmany, .set idle hmany⟩, rfl⟩

/-- The reasons listed are all reasons to reject a single call. -/
theorem run_eq_error_iff {call : Call} (single : call.Single) :
    call.run w = .error e w' ↔ ∃ left, call.Rejected w e left ∧ w' = w.add left := by
  constructor
  · intro h
    cases call with
    | messageBegin header => exact exists_rejected_messageBegin h
    | structEnd => exact exists_rejected_structEnd h
    | fieldBegin header => exact exists_rejected_fieldBegin h
    | fieldStop =>
      obtain ⟨_, hp, rfl, rfl⟩ | ⟨-, h⟩ := checked_eq_error h
      · exact ⟨[], .pending trivial hp, add_nil.symm⟩
      · cases h
    | mapBegin header => exact exists_rejected_mapBegin h
    | listBegin header =>
      obtain ⟨left, hrejected, hleft⟩ := exists_rejected_collectionBegin h
      exact ⟨left, hrejected.1, hleft⟩
    | setBegin header =>
      obtain ⟨left, hrejected, hleft⟩ := exists_rejected_collectionBegin h
      exact ⟨left, hrejected.2, hleft⟩
    | bool b => exact absurd h (bool_ne_error b)
    | string text =>
      obtain ⟨hlong, rfl, rfl⟩ := binary_eq_error h
      exact ⟨[], .string hlong, add_nil.symm⟩
    | binary bytes =>
      obtain ⟨hlong, rfl, rfl⟩ := binary_eq_error h
      exact ⟨[], .binary hlong, add_nil.symm⟩
    | messageEnd | structBegin | fieldEnd | mapEnd | listEnd | setEnd | byte _ | i16 _ | i32 _ | i64 _ | double _ =>
      cases h
    | value _ | record _ => exact single.elim
  · rintro ⟨left, hrejected, rfl⟩
    exact hrejected.run_eq

/-! ### Calls that leave nothing behind -/

/-- Only a size or name of more than 32 bits leaves anything behind. -/
theorem Rejected.left_eq_nil {call : Call} {left : Bytes} (h : call.Rejected w e left) (hsize : ¬call.Oversized) :
    left = [] := by
  cases h with
  | name narrow long => exact absurd ⟨narrow, long⟩ hsize
  | list _ many | set _ many => exact absurd many hsize
  | _ => rfl

theorem Oversized.not_atomic {call : Call} (h : call.Oversized) : ¬Atomic call.run := by
  have hrejected : ∃ e b bs, call.Rejected {} e (b :: bs) := by
    cases call with
    | messageBegin header => exact ⟨_, _, _, .name h.1 h.2⟩
    | listBegin header => exact ⟨_, _, _, .list rfl h⟩
    | setBegin header => exact ⟨_, _, _, .set rfl h⟩
    | _ => exact h.elim
  obtain ⟨e, b, bs, hrejected⟩ := hrejected
  intro hatomic
  have hsame := congrArg (Array.size ∘ Writer.out) (hatomic _ _ _ hrejected.run_eq)
  simp [add] at hsame

/-- **What a rejected call leaves behind**: for each reason to reject a single call nothing else of the writer changes
than that the bytes listed with it are out, and they are none unless the call announces a list, set or name whose size
has more than 32 bits.  All other calls are atomic, from any writer. -/
theorem atomic_iff {call : Call} (single : call.Single) :
    (∀ w e w', call.run w = .error e w' ↔ ∃ left, call.Rejected w e left ∧ w' = w.add left) ∧
    (Atomic call.run ↔ ¬call.Oversized) := by
  refine ⟨fun w e w' => run_eq_error_iff single, fun hatomic hsize => hsize.not_atomic hatomic, ?_⟩
  intro hsize w e w' h
  obtain ⟨left, hrejected, rfl⟩ := (run_eq_error_iff single).1 h
  rw [hrejected.left_eq_nil hsize, add_nil]

/-- A map of 2 ^ 32 entries is rejected without a trace, a set of as many elements is not. -/
theorem atomic_iff_mapBegin :
    let map : Call := .mapBegin ⟨some .i32, some .i32, UInt32.size⟩
    let set : Call := .setBegin ⟨.i32, UInt32.size⟩
    map.Single ∧ set.Single ∧ Atomic map.run ∧ ¬Atomic set.run := by
  intro map set
  have hmap : map.Single := trivial
  have hset : set.Single := trivial
  exact ⟨hmap, hset, (atomic_iff hmap).2.2 id, fun h => (atomic_iff hset).2.1 h (Nat.le_refl _)⟩

end Call

/-- A list of 2 ^ 32 elements is rejected, and the byte that announces its size is out. -/
theorem not_atomic_listBegin :
    (Call.listBegin ⟨.i32, UInt32.size⟩).run {} =
      .error (.lengthExceeded 4294967296 4294967295) { out := #[0xF5] } ∧
    ¬Atomic (Call.listBegin ⟨.i32, UInt32.size⟩).run := by
  have hrun : (Call.listBegin ⟨.i32, UInt32.size⟩).run {} =
      .error (.lengthExceeded 4294967296 4294967295) { out := #[0xF5] } := by rfl
  refine ⟨hrun, fun hatomic => ?_⟩
  have hsame := congrArg (Array.size ∘ Writer.out) (hatomic _ _ _ hrun)
  exact absurd hsame (by decide)

end CompactWire.Writer

import CompactWire.Proofs.InPlace

/-!
# CompactWire.Proofs.InOrder — bytes leave a buffer in the order in which they came

No call writes again what is between the start of the storage and the second index (`Call.take_leaves`).  So what is
there is all that was ever appended, and what is before the first index is all that was taken (`Passage.Logged`).  A
call keeps both (`Passage.logged_after`), so they hold after any calls, of which `in_order` says all at once.
-/

namespace CompactWire.Buffer

/-! ### One call -/

variable {c : Cells}

/-- What a call appends stands behind what was appended before. -/
theorem Call.take_len_leaves (h : c.Ordered) (call : Call) :
    (call.leaves c).storage.toList.take (call.leaves c).len =
      c.storage.toList.take c.len ++ call.appended c (call.gives c) := by
  cases call with
  | put bytes =>
    have hlength : (bytes.take (min bytes.length (c.storage.size - c.len))).length =
        min bytes.length (c.storage.size - c.len) := List.length_take_of_le (Nat.min_le_left ..)
    have hlen := h.len_le_size
    have hfits : c.len + (bytes.take (min bytes.length (c.storage.size - c.len))).length ≤ c.storage.size := by omega
    have hput := Region.take_write_add hfits
    rwa [hlength] at hput
  | write bytes => exact (Region.take_write h.len_le_size (Nat.le_refl _)).trans (List.append_nil _).symm
  | commit n => exact List.take_add
  | consume n | advance n | next => exact (List.append_nil _).symm

/-- What was appended before is not written again. -/
theorem Call.take_leaves (h : c.Ordered) (call : Call) :
    (call.leaves c).storage.toList.take c.len = c.storage.toList.take c.len := by
  cases call with
  | put bytes | write bytes => exact Region.take_write h.len_le_size (Nat.le_refl _)
  | commit n | consume n | advance n | next => rfl

/-- What a call takes stood behind what was taken before. -/
theorem Call.take_cursor_leaves (h : c.Ordered) {call : Call} (hfault : call.fault? c = none) :
    (call.leaves c).storage.toList.take (call.leaves c).cursor =
      c.storage.toList.take c.cursor ++ call.taken c (call.gives c) := by
  have hfault := (Call.fault?_eq_none_iff h).1 hfault
  cases call with
  | put bytes => exact (Region.take_write h.len_le_size h.cursor_le_len).trans (List.append_nil _).symm
  | write bytes => exact (Region.take_write h.len_le_size h.cursor_le_len).trans (List.append_nil _).symm
  | commit n => exact (List.append_nil _).symm
  | consume n => exact Cells.take_cursor_add (Nat.le_sub_of_add_le' hfault)
  | advance n => exact Cells.take_cursor_add (Nat.le_sub_of_add_le' hfault)
  | next => exact Cells.take_cursor_add (Nat.le_sub_of_add_le' hfault)

/-! ### Any calls -/

namespace Passage

/-- A buffer over `storage` whose log shows what its storage holds. -/
structure Logged (storage : Region) (p : Passage) : Prop where
  ordered : p.cells.Ordered
  size : p.cells.storage.size = storage.size
  appended : p.cells.storage.toList.take p.cells.len = p.appended
  taken : p.cells.storage.toList.take p.cells.cursor = p.taken

variable {storage : Region} {sizeClass : Option Nat} {p : Passage} {calls : List Call}

theorem cells_after (p : Passage) (call : Call) : (p.after call).cells = Outcome.left (call.perform p.cells) := by
  unfold after
  cases call.perform p.cells <;> rfl

theorem Logged.after_eq (h : p.Logged storage) (call : Call) :
    p.after call = match call.fault? p.cells with
      | some _ => p
      | none =>
        { cells := call.leaves p.cells
          appended := p.appended ++ call.appended p.cells (call.gives p.cells)
          taken := p.taken ++ call.taken p.cells (call.gives p.cells) } := by
  unfold after
  rw [Call.perform_eq h.ordered]
  cases call.fault? p.cells <;> rfl

theorem logged_after (h : p.Logged storage) (call : Call) : (p.after call).Logged storage := by
  rw [h.after_eq]
  cases hfault : call.fault? p.cells with
  | some fault => exact h
  | none =>
    obtain ⟨hordered, hsize⟩ := Call.ordered_leaves h.ordered hfault
    have happended := Call.take_len_leaves h.ordered call
    have htaken := Call.take_cursor_leaves h.ordered hfault
    rw [h.appended] at happended
    rw [h.taken] at htaken
    exact ⟨hordered, hsize.trans h.size, happended, htaken⟩

theorem logged_through (storage : Region) (sizeClass : Option Nat) (calls : List Call) :
    (through storage sizeClass calls).Logged storage := by
  -- over the calls from any buffer whose log is right: the next call starts from where the last one ended
  have hrun : ∀ p : Passage, p.Logged storage → (calls.foldl after p).Logged storage := by
    induction calls with
    | nil => exact fun _ h => h
    | cons call calls ih => exact fun p h => ih _ (logged_after h call)
  exact hrun _ ⟨⟨Nat.le_refl _, Nat.zero_le _⟩, rfl, rfl, rfl⟩

/-- The three parts go through the same calls. -/
theorem buffer_through (storage : Region) (sizeClass : Option Nat) (calls : List Call) :
    (through storage sizeClass calls).cells.buffer = calls.foldl Call.after (ofStorage storage sizeClass) := by
  have hrun : ∀ p : Passage, p.Logged storage →
      (calls.foldl after p).cells.buffer = calls.foldl Call.after p.cells.buffer := by
    induction calls with
    | nil => exact fun _ _ => rfl
    | cons call calls ih =>
      intro p h
      rw [List.foldl_cons, List.foldl_cons, ← Call.buffer_left h.ordered, ← p.cells_after]
      exact ih _ (logged_after h call)
  have hnew : (through storage sizeClass []).cells.buffer = ofStorage storage sizeClass := by
    simp [through, Cells.buffer, ofStorage, Region.drop]
  rw [← hnew]
  exact hrun _ (logged_through storage sizeClass [])

end Passage

/-- A buffer over `storage` that has been through some calls is a queue of bytes with a bound. -/
structure InOrder (storage : Region) (sizeClass : Option Nat) (calls : List Call) (p : Passage) : Prop where
  cursor_le_len : p.cells.cursor ≤ p.cells.len
  len_le_capacity : p.cells.len ≤ p.cells.storage.size
  capacity : p.cells.storage.size = storage.size
  /-- What was taken and, behind it, what can be taken is what was appended. -/
  queue : ∃ ready, p.cells.chunk = .ok ready ∧ p.taken ++ ready = p.appended
  /-- What was appended still stands in the storage, from its start up to the second index. -/
  stands : p.cells.storage.toList.take p.cells.len = p.appended
  /-- A call fails only for a reason of its own, and then it changes nothing. -/
  fails : ∀ call breach left, Call.perform call p.cells = .error breach left ↔
    left = p.cells ∧ ∃ fault, call.fault? p.cells = some fault ∧ breach = .assertion fault
  /-- Any other call gives and leaves what it should. -/
  succeeds : ∀ call, Call.fault? p.cells call = none →
    call.perform p.cells = .ok (call.gives p.cells) (call.leaves p.cells)
  /-- The room alone is written, from its start on as far as the bytes go, so that it can be made to hold anything. -/
  writes : ∀ bytes, ∃ written,
    Call.perform (.write bytes) p.cells = .ok .done { p.cells with storage := written } ∧
    written.toList = p.cells.storage.toList.take p.cells.len ++
      (bytes.take (p.cells.storage.size - p.cells.len) ++ p.cells.storage.toList.drop (p.cells.len + bytes.length))
  /-- No call changes what was appended before it. -/
  keeps : ∀ call, (p.after call).cells.storage.toList.take p.cells.len = p.cells.storage.toList.take p.cells.len
  /-- The buffer as its three parts goes the same way, and answers in the same way. -/
  parts : p.cells.buffer = calls.foldl Call.after (ofStorage storage sizeClass)
  answers : ∀ call, Outcome.answer (Call.perform call p.cells) =
    (call.answer (calls.foldl Call.after (ofStorage storage sizeClass))).mapError Breach.assertion

/-- **Bytes leave a buffer in the order in which they came**, whatever its capacity, whatever its storage held before
and whatever calls it has been through. -/
theorem in_order (storage : Region) (sizeClass : Option Nat) (calls : List Call) :
    InOrder storage sizeClass calls (.through storage sizeClass calls) := by
  have hparts := Passage.buffer_through storage sizeClass calls
  have h := Passage.logged_through storage sizeClass calls
  generalize Passage.through storage sizeClass calls = p at h hparts
  refine ⟨h.ordered.cursor_le_len, h.ordered.len_le_size, h.size, ⟨p.cells.ready, ?_, ?_⟩, h.appended,
    fun call breach left => ?_, fun call hfault => ?_, fun bytes => ?_, fun call => ?_, hparts, fun call => ?_⟩
  · exact Cells.chunk_eq h.ordered
  · rw [← h.taken, h.ordered.take_cursor_append, h.appended]
  · rw [Call.perform_eq h.ordered, Cells.InPlace.outcome_eq_error_iff]
  · rw [Call.perform_eq h.ordered, hfault]
    rfl
  · exact ⟨_, Call.perform_eq h.ordered (.write bytes), Region.toList_write⟩
  · rw [h.after_eq]
    cases call.fault? p.cells with
    | some fault => rfl
    | none => exact Call.take_leaves h.ordered call
  · rw [← hparts]
    exact Call.answer_perform h.ordered call

/-- Behind three bytes one of two fits, as room that was taken is not used again; a call for two bytes where there is
one takes none. -/
example :
    let p := Passage.through (.fresh 4) none [.put [1, 2, 3], .next, .put [4, 5], .consume 2, .consume 2, .advance 1]
    p.appended = [1, 2, 3, 4] ∧ p.taken = [1, 2, 3, 4] := by decide

end CompactWire.Buffer

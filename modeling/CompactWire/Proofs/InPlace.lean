import CompactWire.Buffer.InPlace
import CompactWire.Proofs.Cells

/-!
# CompactWire.Proofs.InPlace — calls in place do what they should

The indices of a buffer are in order from the start on (`Cells.Ordered`).  A call on such a buffer does what can be said
of it at once (`Call.perform_eq`): it is broken off for a reason that the indices tell, before it has changed anything,
or it gives and leaves what it should, and the indices are in order again.

To the buffer as its three parts it does just what the call there does (`Call.answer_perform`, `Call.buffer_left`).
-/

namespace CompactWire

open Outcome (bind_of_ok bind_of_error)

/-! ### Storage -/

namespace Region

variable {r : Region} {start n : Nat} {bytes : Bytes}

theorem drop_drop (r : Region) (m n : Nat) : (r.drop m).drop n = r.drop (m + n) := by
  simp only [drop, List.drop_drop, List.length_drop, Region.mk.injEq, true_and]
  omega

/-- What is in front of a region is taken off again. -/
theorem drop_length_append (xs : Bytes) (r : Region) : (⟨xs ++ r.written, r.zeros⟩ : Region).drop xs.length = r := by
  simp [drop]

theorem length_take_toList (h : n ≤ r.size) : (r.toList.take n).length = n := by
  rw [List.length_take, length_toList, Nat.min_eq_left h]

/-- Bytes behind the end do not count. -/
theorem overwrite_take (r : Region) (bytes : Bytes) :
    r.overwrite (bytes.take (min bytes.length r.size)) = r.overwrite bytes := by
  have hfits : (bytes.take (min bytes.length r.size)).take r.size = bytes.take r.size := by
    rw [List.take_take, Nat.min_eq_right (Nat.min_le_right _ _), Nat.min_comm, ← List.take_eq_take_min]
  unfold overwrite
  rw [hfits]

theorem take_overwrite (h : bytes.length ≤ r.size) : (r.overwrite bytes).take bytes.length = bytes := by
  rw [take_eq, toList_overwrite, List.take_of_length_le h, List.take_left]

theorem drop_overwrite (h : bytes.length ≤ r.size) : (r.overwrite bytes).drop bytes.length = r.drop bytes.length := by
  rw [Cells.overwrite_eq h]
  exact drop_length_append bytes (r.drop bytes.length)

theorem write_take (r : Region) (start : Nat) (bytes : Bytes) :
    r.write start (bytes.take (min bytes.length (r.size - start))) = r.write start bytes := by
  rw [write, ← Buffer.size_drop, overwrite_take]
  rfl

theorem drop_write (h : start ≤ r.size) : (r.write start bytes).drop start = (r.drop start).overwrite bytes := by
  have hlen : (r.take start).length = start := by rw [take_eq, length_take_toList h]
  have hdrop := drop_length_append (r.take start) ((r.drop start).overwrite bytes)
  rw [hlen] at hdrop
  exact hdrop

theorem toList_write : (r.write start bytes).toList =
    r.toList.take start ++ (bytes.take (r.size - start) ++ r.toList.drop (start + bytes.length)) := by
  have hrest := toList_overwrite bytes (r.drop start)
  rw [toList_drop, List.drop_drop, Buffer.size_drop] at hrest
  rw [← hrest, ← take_eq]
  simp [write, toList]

theorem size_write (h : start ≤ r.size) : (r.write start bytes).size = r.size := by
  rw [← length_toList, toList_write]
  simp only [List.length_append, List.length_take, List.length_drop, length_toList]
  omega

/-- What is in front of the place of writing is kept. -/
theorem take_write (h : start ≤ r.size) (hn : n ≤ start) : (r.write start bytes).toList.take n = r.toList.take n := by
  have hinside : n ≤ (r.toList.take start).length := by rwa [length_take_toList h]
  rw [toList_write, List.take_append_of_le_length hinside, List.take_take, Nat.min_eq_left hn]

/-- What is written stands behind it. -/
theorem take_write_add (h : start + bytes.length ≤ r.size) :
    (r.write start bytes).toList.take (start + bytes.length) = r.toList.take start ++ bytes := by
  have hall : bytes.take (r.size - start) = bytes := List.take_of_length_le (by omega)
  have hlen : (r.toList.take start ++ bytes).length = start + bytes.length := by
    rw [List.length_append, length_take_toList (by omega)]
  rw [toList_write, hall, ← List.append_assoc, List.take_left' hlen]

end Region

namespace Cells

/-- The indices are in order. -/
structure Ordered (c : Cells) : Prop where
  cursor_le_len : c.cursor ≤ c.len
  len_le_size : c.len ≤ c.storage.size

variable {c : Cells} {n : Nat}

theorem Ordered.length_ready (h : c.Ordered) : c.ready.length = c.len - c.cursor := by
  rw [ready, List.length_drop, Region.length_take_toList h.len_le_size]

/-- Writing leaves the indices in order. -/
theorem Ordered.write (h : c.Ordered) (bytes : Bytes) :
    ({ c with storage := c.storage.write c.len bytes } : Cells).Ordered :=
  ⟨h.cursor_le_len, (Region.size_write h.len_le_size).symm ▸ h.len_le_size⟩

/-- What was taken, and what can be. -/
theorem Ordered.take_cursor_append (h : c.Ordered) :
    c.storage.toList.take c.cursor ++ c.ready = c.storage.toList.take c.len := by
  have hcursor : c.storage.toList.take c.cursor = (c.storage.toList.take c.len).take c.cursor := by
    rw [List.take_take, Nat.min_eq_left h.cursor_le_len]
  rw [hcursor, ready, List.take_append_drop]

/-- What is ready is taken from its front. -/
theorem take_cursor_add (hn : n ≤ c.len - c.cursor) :
    c.storage.toList.take (c.cursor + n) = c.storage.toList.take c.cursor ++ c.ready.take n := by
  rw [List.take_add, ready, List.drop_take, List.take_take, Nat.min_eq_left hn]

/-! ### Steps -/

theorem chunk_eq (h : c.Ordered) : c.chunk = .ok c.ready :=
  Checked.slice_eq h.cursor_le_len (by rw [Region.length_toList]; exact h.len_le_size)

namespace InPlace

variable {α : Type} {bytes : Bytes}

theorem look_of {f : Cells → Checked α} {a : α} (h : f c = .ok a) : look f c = .ok a c := by
  unfold look
  rw [h]

theorem look_length (h : c.Ordered) : look Cells.length c = .ok (c.len - c.cursor) c :=
  look_of (Checked.sub_eq h.cursor_le_len)

theorem look_room (h : c.Ordered) : look room c = .ok (c.storage.size - c.len) c :=
  look_of (Checked.sub_eq h.len_le_size)

theorem look_chunk (h : c.Ordered) : look chunk c = .ok c.ready c := look_of (chunk_eq h)

theorem write_eq (h : c.Ordered) (hn : n ≤ c.storage.size - c.len) (hbytes : bytes.length ≤ n) :
    write n bytes c = .ok () { c with storage := c.storage.write c.len bytes } :=
  (bind_of_ok (look_of (if_pos ⟨h.len_le_size, hn, hbytes⟩))).trans rfl

/-- The bytes that fit. -/
theorem put_eq (h : c.Ordered) (bytes : Bytes) :
    put bytes c =
      let n := min bytes.length (c.storage.size - c.len)
      .ok n { c with storage := c.storage.write c.len (bytes.take n), len := c.len + n } := by
  have hslice : Checked.slice bytes 0 (min bytes.length (c.storage.size - c.len)) =
      .ok (bytes.take (min bytes.length (c.storage.size - c.len))) :=
    Checked.slice_eq (Nat.zero_le _) (Nat.min_le_left ..)
  have hwrite := write_eq h (Nat.min_le_right bytes.length _) (List.length_take_le _ bytes)
  unfold put
  rw [bind_of_ok (look_room h), bind_of_ok (look_of hslice), bind_of_ok hwrite]
  rfl

theorem overwrite_eq (h : c.Ordered) (bytes : Bytes) :
    overwrite bytes c = .ok () { c with storage := c.storage.write c.len bytes } := by
  unfold overwrite
  rw [bind_of_ok (look_room h), ← Region.write_take]
  exact write_eq h (Nat.min_le_right ..) (List.length_take_le _ _)

/-- A call that fails changes nothing, and one that does not gives `a` and leaves `left`. -/
def outcome (c : Cells) (fault : Option Buffer.Fault) (a : α) (left : Cells) : EStateM.Result Breach Cells α :=
  match fault with
  | some fault => .error (.assertion fault) c
  | none => .ok a left

theorem outcome_map {β : Type} {x : InPlace α} {fault : Option Buffer.Fault} {a : α} {left : Cells}
    (h : x c = outcome c fault a left) (f : α → β) : (do return f (← x)) c = outcome c fault (f a) left := by
  cases fault with
  | some fault => exact bind_of_error h
  | none => exact bind_of_ok h

theorem outcome_eq_error_iff {fault : Option Buffer.Fault} {a : α} {left after : Cells} {breach : Breach} :
    outcome c fault a left = .error breach after ↔
      after = c ∧ ∃ reason, fault = some reason ∧ breach = .assertion reason := by
  cases fault with
  | some fault => simp [outcome, eq_comm, and_comm]
  | none => simp [outcome]

theorem commit_eq (h : c.Ordered) (n : Nat) :
    commit n c = outcome c (if c.storage.size - c.len < n then some .commitPastEnd else none) ()
      { c with len := c.len + n } := by
  unfold commit
  rw [bind_of_ok (look_room h)]
  split <;> rfl

theorem consume_eq (h : c.Ordered) (n : Nat) :
    consume n c = outcome c (if c.len - c.cursor < n then some .consumePastEnd else none) (c.ready.take n)
      { c with cursor := c.cursor + n } := by
  unfold consume
  rw [bind_of_ok (look_length h)]
  split
  · rfl
  · rename_i hn
    have hn := Nat.le_of_not_lt hn
    have hend : c.cursor + n ≤ c.storage.size := by
      have hlen := h.len_le_size
      have hcursor := h.cursor_le_len
      omega
    -- the index has moved by now, so the slice ends at it and not at the end of what is ready
    have hslice : Checked.slice c.storage.toList c.cursor (c.cursor + n) = .ok (c.ready.take n) := by
      rw [Checked.slice_eq (Nat.le_add_right ..) (by rwa [Region.length_toList]), take_cursor_add hn,
        List.drop_left' (Region.length_take_toList (Nat.le_trans (Nat.le_add_right ..) hend))]
    exact look_of (f := fun moved => Checked.slice moved.storage.toList c.cursor moved.cursor) hslice

theorem advance_eq (h : c.Ordered) (n : Nat) :
    advance n c = outcome c (if c.len - c.cursor < n then some .advancePastEnd else none) ()
      { c with cursor := c.cursor + n } := by
  unfold advance
  rw [bind_of_ok (look_length h)]
  split <;> rfl

theorem next_eq_error (h : c.Ordered) (hready : c.ready = []) : next c = .error (.assertion .nothingReady) c := by
  unfold next
  rw [bind_of_ok (look_length h), ← h.length_ready, hready]
  rfl

theorem next_eq_ok (h : c.Ordered) {byte : UInt8} {rest : Bytes} (hready : c.ready = byte :: rest) :
    next c = .ok byte { c with cursor := c.cursor + 1 } := by
  have hadvance : advance 1 c = .ok () { c with cursor := c.cursor + 1 } := by
    rw [advance_eq h, ← h.length_ready, hready]
    rfl
  unfold next
  rw [bind_of_ok (look_length h), ← h.length_ready, hready]
  show (look chunk >>= _) c = _
  rw [bind_of_ok (look_chunk h), hready]
  show (advance 1 >>= _) c = _
  rw [bind_of_ok hadvance]
  rfl

end InPlace

end Cells

/-! ### Calls -/

namespace Buffer

open Cells (InPlace)

variable {c : Cells}

/-- **A call on indices in order**: it is broken off before it has changed anything, or it does all that it should. -/
theorem Call.perform_eq (h : c.Ordered) (call : Call) :
    call.perform c = InPlace.outcome c (call.fault? c) (call.gives c) (call.leaves c) := by
  cases call with
  | put bytes => exact bind_of_ok (InPlace.put_eq h bytes)
  | write bytes => exact bind_of_ok (InPlace.overwrite_eq h bytes)
  | commit n => exact InPlace.outcome_map (InPlace.commit_eq h n) fun _ => Answer.done
  | consume n => exact InPlace.outcome_map (InPlace.consume_eq h n) Answer.bytes
  | advance n => exact InPlace.outcome_map (InPlace.advance_eq h n) fun _ => Answer.done
  | next =>
    have hlength := h.length_ready
    have hcursor := h.cursor_le_len
    unfold Call.perform Call.fault? Call.gives
    cases hready : c.ready with
    | nil =>
      rw [hready, List.length_nil] at hlength
      rw [if_pos (by omega)]
      exact bind_of_error (InPlace.next_eq_error h hready)
    | cons byte rest =>
      rw [hready, List.length_cons] at hlength
      rw [if_neg (by omega)]
      exact bind_of_ok (InPlace.next_eq_ok h hready)

/-- A call that is not broken off asks for no more than there is. -/
theorem Call.fault?_eq_none_iff (h : c.Ordered) {call : Call} : call.fault? c = none ↔
    match call with
    | .put _ | .write _ => True
    | .commit n => c.len + n ≤ c.storage.size
    | .consume n | .advance n => c.cursor + n ≤ c.len
    | .next => c.cursor + 1 ≤ c.len := by
  obtain ⟨hcursor, hlen⟩ := h
  cases call <;> simp [Call.fault?] <;> omega

/-- The indices stay in order, and the storage keeps its size. -/
theorem Call.ordered_leaves (h : c.Ordered) {call : Call} (hfault : call.fault? c = none) :
    (call.leaves c).Ordered ∧ (call.leaves c).storage.size = c.storage.size := by
  have hfault := (Call.fault?_eq_none_iff h).1 hfault
  have hcursor := h.cursor_le_len
  have hlen := h.len_le_size
  cases call with
  | put bytes =>
    have hfits : c.len + min bytes.length (c.storage.size - c.len) ≤ c.storage.size := by omega
    have hsize : (Call.leaves c (.put bytes)).storage.size = c.storage.size := Region.size_write hlen
    exact ⟨⟨Nat.le_trans hcursor (Nat.le_add_right ..), Nat.le_trans hfits (Nat.le_of_eq hsize.symm)⟩, hsize⟩
  | write bytes => exact ⟨h.write _, Region.size_write hlen⟩
  | commit n => exact ⟨⟨Nat.le_trans hcursor (Nat.le_add_right ..), hfault⟩, rfl⟩
  | consume n => exact ⟨⟨hfault, hlen⟩, rfl⟩
  | advance n => exact ⟨⟨hfault, hlen⟩, rfl⟩
  | next => exact ⟨⟨hfault, hlen⟩, rfl⟩

end Buffer

/-! ### The three parts of a buffer -/

namespace Cells

variable {c : Cells} {n : Nat} {bytes : Bytes}

theorem ready_buffer (c : Cells) : c.buffer.ready = c.ready := by
  show (c.storage.take c.len).drop c.cursor = _
  rw [Region.take_eq]
  rfl

theorem Ordered.length_buffer (h : c.Ordered) : c.buffer.length = c.len - c.cursor := by
  rw [Buffer.length, ready_buffer, h.length_ready]

theorem room_buffer (c : Cells) : c.buffer.room = c.storage.size - c.len := Buffer.size_drop c.len c.storage

theorem Ordered.buffer_write (h : c.Ordered) (bytes : Bytes) :
    ({ c with storage := c.storage.write c.len bytes } : Cells).buffer = c.buffer.write bytes := by
  simp only [buffer, Buffer.write, Region.take_eq, Region.take_write h.len_le_size h.cursor_le_len,
    Region.take_write h.len_le_size (Nat.le_refl _), Region.drop_write h.len_le_size]

theorem Ordered.buffer_fill (h : c.Ordered) (n : Nat) :
    ({ c with len := c.len + n } : Cells).buffer =
      { c.buffer with ready := c.buffer.ready ++ c.buffer.spare.take n, spare := c.buffer.spare.drop n } := by
  have hcursor : c.cursor ≤ (c.storage.toList.take c.len).length := by
    rw [Region.length_take_toList h.len_le_size]
    exact h.cursor_le_len
  simp only [buffer, Region.take_eq, Region.toList_drop, Region.drop_drop, List.take_add,
    List.drop_append_of_le_length hcursor]

theorem Ordered.buffer_put (h : c.Ordered) (bytes : Bytes) :
    ((Buffer.Call.put bytes).leaves c).buffer = (c.buffer.put bytes).2 := by
  have hroom := room_buffer c
  generalize hn : min bytes.length (c.storage.size - c.len) = n
  have hlength : (bytes.take n).length = n := List.length_take_of_le (by omega)
  have hfits : (bytes.take n).length ≤ c.buffer.spare.size := by
    show _ ≤ c.buffer.room
    omega
  have hfill := (h.write (bytes.take n)).buffer_fill n
  rw [h.buffer_write] at hfill
  have htake : (c.buffer.write (bytes.take n)).spare.take n = bytes.take n := by
    have htake := Region.take_overwrite hfits
    rwa [hlength] at htake
  have hdrop : (c.buffer.write (bytes.take n)).spare.drop n = c.buffer.spare.drop n := by
    have hdrop := Region.drop_overwrite hfits
    rwa [hlength] at hdrop
  rw [htake, hdrop] at hfill
  simp only [Buffer.Call.leaves, Buffer.put, hroom, hn]
  exact hfill

theorem buffer_drain (hn : n ≤ c.len - c.cursor) :
    ({ c with cursor := c.cursor + n } : Cells).buffer = c.buffer.skip n := by
  have htaken := take_cursor_add hn
  have hready : (c.storage.toList.take c.len).drop (c.cursor + n) = c.ready.drop n := by
    rw [ready, List.drop_drop]
  simp only [buffer, Buffer.skip, Region.take_eq, htaken, hready, List.reverse_append]
  rfl

end Cells

namespace Buffer

variable {c : Cells}

/-- **A call in place is the call on the three parts**: it fails for the same reason, or it gives the same and leaves
the same parts. -/
theorem Call.buffer_leaves (h : c.Ordered) (call : Call) :
    match call.fault? c with
    | some fault => call.answer c.buffer = .error fault ∧ call.after c.buffer = c.buffer
    | none => call.answer c.buffer = .ok (call.gives c) ∧ call.after c.buffer = (call.leaves c).buffer := by
  cases call with
  | put bytes => exact ⟨by rw [Call.gives, ← Cells.room_buffer c]; rfl, (h.buffer_put bytes).symm⟩
  | write bytes => exact ⟨rfl, (h.buffer_write bytes).symm⟩
  | commit n =>
    have hfill := h.buffer_fill n
    simp only [Call.fault?, Call.answer, Call.after, Buffer.commit, Cells.room_buffer]
    by_cases hn : c.storage.size - c.len < n
    · simp only [if_pos hn]
      exact ⟨rfl, rfl⟩
    · simp only [if_neg hn]
      exact ⟨rfl, hfill.symm⟩
  | consume n =>
    simp only [Call.fault?, Call.answer, Call.after, Buffer.consume, h.length_buffer]
    by_cases hn : c.len - c.cursor < n
    · simp only [if_pos hn]
      exact ⟨rfl, rfl⟩
    · simp only [if_neg hn, Cells.ready_buffer]
      exact ⟨rfl, (Cells.buffer_drain (Nat.le_of_not_lt hn)).symm⟩
  | advance n =>
    simp only [Call.fault?, Call.answer, Call.after, Buffer.advance, h.length_buffer]
    by_cases hn : c.len - c.cursor < n
    · simp only [if_pos hn]
      exact ⟨rfl, rfl⟩
    · simp only [if_neg hn]
      exact ⟨rfl, (Cells.buffer_drain (Nat.le_of_not_lt hn)).symm⟩
  | next =>
    have hlength := h.length_ready
    have hcursor := h.cursor_le_len
    simp only [Call.fault?, Call.answer, Call.after, Buffer.next, Cells.ready_buffer, Call.gives]
    cases hready : c.ready with
    | nil =>
      rw [hready, List.length_nil] at hlength
      rw [if_pos (by omega)]
      exact ⟨rfl, rfl⟩
    | cons byte rest =>
      rw [hready, List.length_cons] at hlength
      have hdrain := Cells.buffer_drain (c := c) (n := 1) (by omega)
      rw [skip, Cells.ready_buffer, hready] at hdrain
      rw [if_neg (by omega)]
      exact ⟨rfl, hdrain.symm⟩

theorem Call.answer_perform (h : c.Ordered) (call : Call) :
    Outcome.answer (call.perform c) = (call.answer c.buffer).mapError Breach.assertion := by
  have hcall := Call.buffer_leaves h call
  rw [Call.perform_eq h]
  cases hfault : call.fault? c with
  | some fault =>
    rw [hfault] at hcall
    rw [hcall.1]
    rfl
  | none =>
    rw [hfault] at hcall
    rw [hcall.1]
    rfl

theorem Call.buffer_left (h : c.Ordered) (call : Call) :
    (Outcome.left (call.perform c)).buffer = call.after c.buffer := by
  have hcall := Call.buffer_leaves h call
  rw [Call.perform_eq h]
  cases hfault : call.fault? c with
  | some fault =>
    rw [hfault] at hcall
    exact hcall.2.symm
  | none =>
    rw [hfault] at hcall
    exact hcall.2.symm

end Buffer

end CompactWire

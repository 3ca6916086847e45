import CompactWire.Proofs.Accounting
import CompactWire.Source.Steps

/-!
# CompactWire.Proofs.Cells — the indices of a buffer never go wrong

Every check of a call on the indices of a buffer holds, and the call gives what it gives on the buffer: lengths and
chunks always, appending always, taking where there is enough to take (`length_of` to `next_of`).  So it is with the
table of a pool in which there is a class for every index that is looked up (`Pool.Intact`, `Buffer.Housed`): a pool
however it was used, and what it has on loan (`Reached.intact`).
-/

namespace CompactWire

/-! ### Storage -/

namespace Buffer

variable (b : Buffer)

theorem take_storage : b.storage.take b.filled = b.taken.reverse ++ b.ready := by
  have hlen : b.filled = (b.taken.reverse ++ b.ready).length := by
    rw [List.length_append, List.length_reverse]
    rfl
  rw [Region.take_eq, Region.toList, storage, List.append_assoc, List.take_left' hlen.symm]

theorem drop_storage : b.storage.drop b.filled = b.spare := by
  have hlen : b.filled = (b.taken.reverse ++ b.ready).length := by
    rw [List.length_append, List.length_reverse]
    rfl
  have hzeros : b.filled - b.storage.written.length = 0 := by
    rw [storage, List.length_append, ← hlen]
    exact Nat.sub_eq_zero_of_le (Nat.le_add_right _ _)
  rw [Region.drop, hzeros, storage, List.drop_left' hlen.symm]
  rfl

theorem take_cursor_storage : b.storage.take b.cursor = b.taken.reverse := by
  have hlen : b.taken.reverse.length = b.cursor := List.length_reverse
  rw [Region.take_eq, Region.toList, storage, List.append_assoc, List.append_assoc, List.take_left' hlen]

/-- The bytes between the indices are those that can be taken. -/
theorem ready_storage : (b.storage.toList.take b.filled).drop b.cursor = b.ready := by
  have hlen : b.taken.reverse.length = b.cursor := List.length_reverse
  rw [← Region.take_eq, b.take_storage, List.drop_left' hlen]

theorem cursor_le_filled : b.cursor ≤ b.filled := Nat.le_add_right _ _

theorem filled_le_capacity : b.filled ≤ b.storage.size := by
  rw [size_storage]
  exact Nat.le_add_right _ _

theorem size_sub_filled : b.storage.size - b.filled = b.room := by
  rw [size_storage, capacity, Nat.add_sub_cancel_left]

/-- The storage behind a call that takes is the same. -/
theorem storage_skip (n : Nat) : (b.skip n).storage = b.storage := by
  simp [skip, storage]

theorem filled_skip {n : Nat} (hn : n ≤ b.length) : (b.skip n).cursor = b.cursor + n ∧ (b.skip n).filled = b.filled := by
  have hlen : (b.ready.take n).length = n := List.length_take_of_le hn
  have hcursor : (b.skip n).cursor = b.cursor + n := by
    simp only [skip, cursor, List.length_append, List.length_reverse, hlen]
    exact Nat.add_comm _ _
  refine ⟨hcursor, ?_⟩
  unfold filled
  rw [hcursor]
  simp only [skip, List.length_drop]
  unfold length at hn
  omega

end Buffer

namespace Checked

@[simp] theorem ok_bind {α β : Type} (a : α) (f : α → Checked β) : (Except.ok a >>= f) = f a := rfl

theorem sub_eq {a b : Nat} (h : b ≤ a) : sub a b = .ok (a - b) := if_neg (Nat.not_lt.2 h)

theorem slice_eq {bytes : Bytes} {start stop : Nat} (h : start ≤ stop) (h' : stop ≤ bytes.length) :
    slice bytes start stop = .ok ((bytes.take stop).drop start) := if_pos ⟨h, h'⟩

end Checked

/-! ### Calls on indices -/

namespace Cells

variable (b : Buffer) {n : Nat} {bytes : Bytes}

theorem length_of : (of b).length = .ok b.length := by
  refine (Checked.sub_eq b.cursor_le_filled).trans ?_
  show Except.ok (b.cursor + b.ready.length - b.cursor) = _
  rw [Nat.add_sub_cancel_left]
  rfl

theorem room_of : (of b).room = .ok b.room := by
  refine (Checked.sub_eq b.filled_le_capacity).trans ?_
  show Except.ok (b.storage.size - b.filled) = _
  rw [b.size_sub_filled]

theorem chunk_of : (of b).chunk = .ok b.ready := by
  have hinside : b.filled ≤ b.storage.toList.length := by
    rw [Region.length_toList]
    exact b.filled_le_capacity
  refine (Checked.slice_eq b.cursor_le_filled hinside).trans ?_
  show Except.ok ((b.storage.toList.take b.filled).drop b.cursor) = _
  rw [b.ready_storage]

theorem write_of (hn : n ≤ b.room) (hbytes : bytes.length ≤ n) :
    (of b).write n bytes = .ok (of (b.write bytes)) := by
  have hstorage : b.storage.write b.filled bytes = (b.write bytes).storage := by
    rw [Region.write, b.take_storage, b.drop_storage]
    rfl
  have hinside : b.filled ≤ b.storage.size ∧ n ≤ b.storage.size - b.filled ∧ bytes.length ≤ n :=
    ⟨b.filled_le_capacity, by rwa [b.size_sub_filled], hbytes⟩
  refine (if_pos hinside).trans ?_
  show Except.ok (⟨b.storage.write b.filled bytes, b.cursor, b.filled, b.sizeClass⟩ : Cells) = _
  rw [hstorage]
  rfl

theorem overwrite_eq {r : Region} (h : bytes.length ≤ r.size) :
    r.overwrite bytes = ⟨bytes ++ (r.drop bytes.length).written, (r.drop bytes.length).zeros⟩ := by
  unfold Region.overwrite
  rw [List.take_of_length_le h]

theorem put_of (bytes : Bytes) : (of b).put bytes = .ok ((b.put bytes).1, of (b.put bytes).2) := by
  generalize hn : min bytes.length b.room = n
  have hle : n ≤ bytes.length ∧ n ≤ b.room := by omega
  have hlen : (bytes.take n).length = n := List.length_take_of_le hle.1
  have hslice : Checked.slice bytes 0 n = .ok (bytes.take n) := Checked.slice_eq (Nat.zero_le n) hle.1
  have hput : b.put bytes = (n, { b with ready := b.ready ++ bytes.take n, spare := b.spare.drop n }) := by
    unfold Buffer.put
    rw [hn]
  have hstorage : (b.write (bytes.take n)).storage = (b.put bytes).2.storage := by
    rw [hput]
    unfold Buffer.write Buffer.storage
    rw [overwrite_eq (Nat.le_trans (Nat.le_of_eq hlen) hle.2), hlen]
    simp
  unfold put
  rw [room_of, Checked.ok_bind, hn]
  dsimp only
  rw [hslice, Checked.ok_bind, write_of b hle.2 (Nat.le_of_eq hlen), Checked.ok_bind]
  show Except.ok (n, (⟨(b.write (bytes.take n)).storage, b.cursor, b.filled + n, b.sizeClass⟩ : Cells)) = _
  rw [hstorage, hput]
  simp [of, Buffer.cursor, Buffer.filled, hlen, Nat.add_assoc]

/-- Bytes that were written before are published. -/
theorem commit_of (h : n ≤ b.spare.written.length) :
    ∃ b', b.commit n = .ok b' ∧ (of b).commit n = .ok (of b') := by
  have hroom : ¬b.room < n := Nat.not_lt.2 (Nat.le_trans h (Nat.le_add_right _ _))
  refine ⟨{ b with ready := b.ready ++ b.spare.take n, spare := b.spare.drop n }, if_neg hroom, ?_⟩
  have htake : b.spare.take n = b.spare.written.take n := by
    unfold Region.take
    rw [Nat.sub_eq_zero_of_le h, Nat.zero_min, List.replicate_zero, List.append_nil]
  have hdrop : b.spare.drop n = ⟨b.spare.written.drop n, b.spare.zeros⟩ := by
    unfold Region.drop
    rw [Nat.sub_eq_zero_of_le h, Nat.sub_zero]
  unfold commit
  rw [room_of, Checked.ok_bind, if_neg hroom, htake, hdrop]
  show Except.ok (⟨b.storage, b.cursor, b.filled + n, b.sizeClass⟩ : Cells) = _
  simp [of, Buffer.cursor, Buffer.filled, Buffer.storage, List.length_take_of_le h, Nat.add_assoc]

theorem skip_of (hn : n ≤ b.length) : ({ of b with cursor := (of b).cursor + n } : Cells) = of (b.skip n) := by
  obtain ⟨hcursor, hfilled⟩ := b.filled_skip hn
  unfold of
  rw [b.storage_skip, hcursor, hfilled]
  rfl

theorem consume_of (hn : n ≤ b.length) : (of b).consume n = .ok (b.ready.take n, of (b.skip n)) := by
  have hend : b.cursor + n ≤ b.filled := Nat.add_le_add_left hn _
  have hinside : b.cursor + n ≤ b.storage.toList.length := by
    rw [Region.length_toList]
    exact Nat.le_trans hend b.filled_le_capacity
  have hslice : Checked.slice b.storage.toList b.cursor (b.cursor + n) = .ok (b.ready.take n) := by
    rw [Checked.slice_eq (Nat.le_add_right _ _) hinside, ← b.ready_storage, List.take_drop, List.take_take,
      Nat.min_eq_left hend]
  unfold consume
  rw [length_of, Checked.ok_bind, if_neg (Nat.not_lt.2 hn), skip_of b hn]
  show (Checked.slice b.storage.toList b.cursor (b.cursor + n) >>= _) = _
  rw [hslice]
  rfl

theorem advance_of (hn : n ≤ b.length) : (of b).advance n = .ok (of (b.skip n)) := by
  unfold advance
  rw [length_of, Checked.ok_bind, if_neg (Nat.not_lt.2 hn), skip_of b hn]
  rfl

theorem next_of {x : UInt8} {xs : Bytes} (h : b.ready = x :: xs) : (of b).next = .ok (x, of (b.skip 1)) := by
  have hpos : 1 ≤ b.length := by
    unfold Buffer.length
    rw [h]
    exact Nat.succ_pos _
  unfold next
  rw [length_of, Checked.ok_bind, if_neg (Nat.not_lt.2 hpos), chunk_of, Checked.ok_bind, h, advance_of b hpos]
  rfl

theorem buffer_of : (of b).buffer = b := by
  have hlen : b.taken.reverse.length = b.cursor := List.length_reverse
  unfold buffer
  show (⟨(b.storage.take b.cursor).reverse, (b.storage.take b.filled).drop b.cursor, b.storage.drop b.filled,
    b.sizeClass⟩ : Buffer) = b
  rw [b.take_cursor_storage, b.take_storage, b.drop_storage, List.drop_left' hlen, List.reverse_reverse]

end Cells

/-! ### The table of a pool -/

/-- The storage fits into the class that it goes back to, and there is such a class. -/
def Buffer.Housed (c : Pool.Config) (b : Buffer) : Prop :=
  b.Homed c ∧ ∀ i, b.sizeClass = some i → i < c.numClasses

theorem Buffer.Housed.of_eq {c : Pool.Config} {b b' : Buffer} (h : b.Housed c) (hclass : b'.sizeClass = b.sizeClass)
    (hcapacity : b'.capacity = b.capacity) : b'.Housed c :=
  ⟨h.1.of_capacity hclass hcapacity, fun i hi => h.2 i (hclass ▸ hi)⟩

theorem Buffer.Housed.skip {c : Pool.Config} {b : Buffer} (h : b.Housed c) (n : Nat) : (b.skip n).Housed c :=
  h.of_eq rfl (Buffer.capacity_skip n b)

theorem Buffer.Housed.put {c : Pool.Config} {b : Buffer} (h : b.Housed c) (bytes : Bytes) : (b.put bytes).2.Housed c :=
  h.of_eq rfl (Buffer.capacity_after b (.put bytes))

namespace Pool

/-- The pool is sound, and has a class for every index. -/
structure Intact (c : Config) (p : Pool) : Prop where
  sound : p.Sound
  config : p.config = c
  classes : p.classes.length = c.numClasses

variable {c : Config} {p : Pool}

theorem length_classes_tryAlloc (p : Pool) (n : Nat) : Outcome.Ends
    (fun b p' => p'.classes.length = p.classes.length ∧ b.sizeClass = p.config.classIndex? n)
    (fun p' => p'.classes.length = p.classes.length) (tryAlloc n p) := by
  unfold tryAlloc
  cases p.config.classIndex? n with
  | none => rfl
  | some i =>
    dsimp only
    generalize p.classes[i]?.map SizeClass.take = taken
    match taken with
    | none => rfl
    | some (none, s) => exact List.length_set
    | some (some storage, s) => exact ⟨List.length_set, rfl⟩

theorem length_classes_alloc (p : Pool) (n : Nat) : (p.alloc n).2.classes.length = p.classes.length ∧
    ∀ i, (p.alloc n).1.sizeClass = some i → p.config.classIndex? n = some i := by
  have htry := length_classes_tryAlloc p n
  unfold Pool.alloc
  generalize tryAlloc n p = o at htry
  cases o with
  | ok b p' => exact ⟨htry.1, fun i hi => htry.2.symm.trans hi⟩
  | error _ p' => exact ⟨htry, fun i hi => by cases hi⟩

theorem length_classes_release (p : Pool) (b : Buffer) : (p.release b).classes.length = p.classes.length := by
  unfold Pool.release
  cases b.sizeClass with
  | none => rfl
  | some i => exact List.length_modify _ _ _

/-- An intact pool lends what was asked for, and stays intact. -/
theorem Intact.alloc (h : p.Intact c) (n : Nat) :
    Lent c n (p.alloc n).1 (p.alloc n).2 ∧ (p.alloc n).1.Housed c ∧ (p.alloc n).2.Intact c := by
  have hlent := lent_alloc h.sound n
  have hrest := length_classes_alloc p n
  rw [h.config] at hlent hrest
  exact ⟨hlent, ⟨hlent.homed, fun i hi => Config.classIndex?_lt (hrest.2 i hi)⟩, hlent.sound, hlent.config,
    hrest.1.trans h.classes⟩

theorem Intact.release {b : Buffer} (h : p.Intact c) (hb : b.Housed c) : (p.release b).Intact c := by
  obtain ⟨hsound, hconfig⟩ := sound_release h.sound (h.config ▸ hb.1)
  exact ⟨hsound, hconfig.trans h.config, (length_classes_release p b).trans h.classes⟩

/-- However a pool was used, it is intact. -/
theorem Reached.intact {loans : List Buffer} (h : Reached c p loans) : p.Intact c := by
  obtain ⟨hsound, hconfig, -⟩ := h.sound
  refine ⟨hsound, hconfig, ?_⟩
  clear hsound hconfig
  induction h with
  | new => simp [Pool.new]
  | @alloc p _ _ n ih => exact (length_classes_alloc p n).1.trans ih
  | @lent p p' loans b capacity _ hok ih =>
    have htry := length_classes_tryAlloc p capacity
    rw [hok] at htry
    exact htry.1.trans ih
  | @refused p p' loans refusal capacity _ herror ih =>
    have htry := length_classes_tryAlloc p capacity
    rw [herror] at htry
    exact htry.trans ih
  | used _ _ _ ih => exact ih
  | @released p _ _ b _ ih => exact (length_classes_release p b).trans ih

end Pool

/-! ### Accounts -/

namespace Account

variable {c : Pool.Config} {a : Account}

/-- A request is served from the table, and noted. -/
theorem alloc_eq (h : a.pool.Intact c) (n : Nat) :
    a.alloc n = .ok (.of (a.pool.alloc n).1, ⟨(a.pool.alloc n).2, n :: a.requests⟩) := by
  have hlook : a.lookUp (a.pool.config.classIndex? n) = .ok () := by
    unfold lookUp
    cases hi : a.pool.config.classIndex? n with
    | none => rfl
    | some i =>
      rw [h.config] at hi
      exact if_pos (by rw [h.classes]; exact Pool.Config.classIndex?_lt hi)
  unfold alloc
  rw [hlook]
  rfl

/-- A buffer of the pool is taken back into the table. -/
theorem giveBack_eq {b : Buffer} (h : a.pool.Intact c) (hb : b.Housed c) :
    a.giveBack (.of b) = .ok { a with pool := a.pool.release b } := by
  have hlook : a.lookUp b.sizeClass = .ok () := by
    unfold lookUp
    cases hi : b.sizeClass with
    | none => rfl
    | some i => exact if_pos (by rw [h.classes]; exact hb.2 i hi)
  have hrelease : a.pool.release (Buffer.ofStorage b.storage b.sizeClass) = a.pool.release b := rfl
  unfold giveBack
  show (a.lookUp b.sizeClass >>= fun _ => _) = _
  rw [hlook]
  show Except.ok { a with pool := a.pool.release (Buffer.ofStorage b.storage b.sizeClass) } = _
  rw [hrelease]

end Account

end CompactWire
